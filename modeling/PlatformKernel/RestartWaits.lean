-- The restart of a subsystem and the calls of the hybrid driver that wait for
-- it. A synchronous call goes from context_alloc over the check of ssrcount to
-- the waiting loop, may leave it with a signal and come back; meanwhile the
-- restart notifier counts the shutdown and wakes every call of the domain.
import PlatformKernel.ContextTable

namespace virtual_fastrpc.restart_waits

open virtual_fastrpc.context_table keyed step_runs

/-! ## A call and its thread -/

/-- The header also has the flag of the polling mode. -/
structure WaitShared extends AdsprpcShared where
  POLL_MODE : BitVec 32

def ECONNRESET : Int := 104
def FASTRPC_USER_EARLY_HINT_TIMEOUT : Nat := 500

/-- Where the thread of a call is in hfastrpc_internal_invoke. -/
inductive Pc
  /-- In context_alloc. -/
  | alloc
  /-- In get_args, and in hfastrpc_invoke_send up to the smd_mutex. -/
  | ready
  /-- The counts were equal, and the message goes to the transport. -/
  | checked
  /-- At the label `wait`. -/
  | wait
  /-- At the switch of hfastrpc_wait_for_completion. -/
  | switch
  /-- Trying the completion, after `jj` turns without it. -/
  | trying (jj : Nat)
  /-- In poll_for_remote_response, after an early response. -/
  | polling_response
  /-- In poll_for_remote_response, in the polling mode. -/
  | polling_mode
  /-- The polling after an early response has timed out. -/
  | timed_out
  /-- In hfastrpc_wait_for_response. -/
  | blocked
  /-- hfastrpc_wait_for_response has returned 0. -/
  | woken
  /-- At the end of a turn of the waiting loop. -/
  | again
  /-- hfastrpc_wait_for_response was interrupted. -/
  | signalled
  /-- The call has returned and left its context on the interrupted list. -/
  | parked
  /-- Behind the waiting loop, on the way to context_free. -/
  | out
  deriving DecidableEq, Repr

/-- The thread of a call. The last field is for the laws only: how many shutdowns had begun
when the check of ssrcount let the call pass. -/
structure Waiter where
  pc : Pc
  wakeTime : BitVec 32
  passed : Option Nat
  deriving DecidableEq, Repr

def Waiter.goto (pc : Pc) (w : Waiter) : Waiter := { w with pc }

/-- What poll_for_remote_response finds in the poll word of the shared memory. -/
inductive Poll
  | timeout | early_wakeup | response
  deriving DecidableEq, Repr

/-- poll_for_remote_response: whether it found an answer, and the context after it. -/
def poll_for_remote_response (c : InvokeCtx) : Poll → Bool × InvokeCtx
  | .timeout => (false, c)
  | .early_wakeup => (true, c)
  | .response => (true, { c with is_work_done := true, retval := 0 })

/-- A thread takes one of the wake-ups of the completion. -/
def take (c : InvokeCtx) : InvokeCtx := { c with work := c.work - 1 }

/-- One step of a thread in hfastrpc_wait_for_completion that needs nothing from outside. The
thread that waits for a completion goes on when there is one. -/
def wait_turn (sh : WaitShared) (w : Waiter) (c : InvokeCtx) : Option (Waiter × InvokeCtx) :=
  match w.pc with
  | .switch =>
    if c.rsp_flags = sh.USER_EARLY_SIGNAL then some (w.goto (.trying 0), c)
    else if c.rsp_flags = sh.EARLY_RESPONSE then some (w.goto .polling_response, c)
    else if c.rsp_flags = sh.COMPLETE_SIGNAL ∨ c.rsp_flags = sh.NORMAL_RESPONSE then
      some (w.goto .blocked, c)
    else if c.rsp_flags = sh.POLL_MODE then some (w.goto .polling_mode, c)
    else some (w.goto .out, c)
  | .trying jj =>
    if w.wakeTime.toNat < FASTRPC_USER_EARLY_HINT_TIMEOUT ∧
        jj < FASTRPC_USER_EARLY_HINT_TIMEOUT then
      if 0 < c.work then some (w.goto .again, take c) else some (w.goto (.trying (jj + 1)), c)
    else some (w.goto .blocked, c)
  | .timed_out => if c.is_work_done then some (w.goto .again, c) else some (w.goto .blocked, c)
  | .blocked => if 0 < c.work then some (w.goto .woken, take c) else none
  | .woken => if c.is_work_done then some (w.goto .out, c) else some (w.goto .again, c)
  | .again => if c.is_work_done then some (w.goto .out, c) else some (w.goto .switch, c)
  | _ => none

/-- The end of a poll_for_remote_response. -/
def poll_turn (sh : WaitShared) (w : Waiter) (c : InvokeCtx) (r : Poll) :
    Option (Waiter × InvokeCtx) :=
  match w.pc with
  | .polling_response =>
    if (poll_for_remote_response c r).1 then
      some (w.goto .out, { (poll_for_remote_response c r).2 with is_work_done := true })
    else some (w.goto .timed_out, c)
  | .polling_mode =>
    if (poll_for_remote_response c r).1 then
      some (w.goto .again, (poll_for_remote_response c r).2)
    else some (w.goto .again, { c with rsp_flags := sh.NORMAL_RESPONSE })
  | _ => none

/-- The label `wait`, and the start of hfastrpc_wait_for_completion. -/
def enter_wait (sh : WaitShared) (poll_mode : Bool) (w : Waiter) (c : InvokeCtx) :
    Waiter × InvokeCtx :=
  ({ w with pc := .switch, wakeTime := c.early_wake_time },
    if poll_mode then { c with rsp_flags := sh.POLL_MODE } else c)

/-! ## The state of a domain -/

inductive Subsystem
  | SUBSYSTEM_UP | SUBSYSTEM_RESTARTING | SUBSYSTEM_DOWN
  deriving DecidableEq, Repr

/-- The event that the restart notifier gets next, or the sessions that
fastrpc_notify_drivers has still to look at. -/
inductive Notifier
  | before_shutdown | after_shutdown | before_powerup
  | walking (rest : List Nat)
  | after_powerup
  deriving DecidableEq, Repr

/-- A domain with its channel and its sessions. The last two fields are for the laws only:
how many shutdowns have begun, and how many had begun when fastrpc_notify_drivers was last
done. -/
structure Domain where
  chan : Chan
  drivers : List Nat
  bound : Nat → Bool
  fl_ssrcount : Nat → BitVec 64
  ssrcount : BitVec 64
  subsystemstate : Subsystem
  notifier : Notifier
  waiter : Nat → Waiter
  shutdowns : Nat
  notified : Nat

def init : Domain where
  chan := context_table.init
  drivers := []
  bound := fun _ => false
  fl_ssrcount := fun _ => 0
  ssrcount := 0
  subsystemstate := .SUBSYSTEM_UP
  notifier := .before_shutdown
  waiter := fun _ => ⟨.alloc, 0, none⟩
  shutdowns := 0
  notified := 0

def Domain.setWaiter (s : Domain) (p : Nat) (w : Waiter) : Domain :=
  { s with waiter := fun q => if q = p then w else s.waiter q }

/-- The thread of the context goes on, and changes the context. -/
def Domain.put (s : Domain) (p : Nat) (o : Waiter × InvokeCtx) : Domain :=
  { s.setWaiter p o.1 with chan := s.chan.setCtx p (fun _ => o.2) }

/-! ## The notifier -/

/-- One turn of the loops of fastrpc_notify_users. -/
def wake (s : Chan) (p : Nat) : Chan :=
  s.setCtx p (fun x => context_table.complete
    { x with is_work_done := true, retval := -ECONNRESET })

def fastrpc_notify_users (s : Chan) (v : Nat) : Chan :=
  (s.clst v).interrupted.foldl wake ((s.clst v).pending.foldl wake s)

/-- The turn of fastrpc_notify_drivers for a session. -/
def notify_driver (s : Domain) (v : Nat) : Domain :=
  if s.bound v then { s with chan := fastrpc_notify_users s.chan v } else s

def fastrpc_restart_notifier_cb (s : Domain) : Option Domain :=
  match s.notifier with
  | .before_shutdown =>
    some { s with
      ssrcount := s.ssrcount + 1
      subsystemstate := .SUBSYSTEM_RESTARTING
      notifier := .after_shutdown
      shutdowns := s.shutdowns + 1 }
  | .after_shutdown =>
    some { s with subsystemstate := .SUBSYSTEM_DOWN, notifier := .before_powerup }
  | .before_powerup => some { s with notifier := .walking s.drivers }
  | .walking (v :: rest) => some { notify_driver s v with notifier := .walking rest }
  | .walking [] => some { s with notifier := .after_powerup, notified := s.shutdowns }
  | .after_powerup =>
    some { s with subsystemstate := .SUBSYSTEM_UP, notifier := .before_shutdown }

/-- fastrpc_notify_drivers holds the lock of the list of sessions. -/
def Domain.hlocked (s : Domain) : Bool :=
  match s.notifier with
  | .walking _ => true
  | _ => false

/-! ## The machine -/

inductive Act
  | open_session (v : Nat)
  /-- hfastrpc_get_info sets the domain of the session. -/
  | get_info (v : Nat)
  /-- hfastrpc_channel_open, at the INIT of the session. -/
  | channel_open (v : Nat)
  /-- The end of hfastrpc_file_free. -/
  | file_free (v : Nat)
  /-- A section of the channel: of context_alloc, context_save_interrupted,
  context_restore_interrupted, context_free, or a response of the DSP. -/
  | ctx (a : context_table.Act)
  /-- The check of ssrcount in hfastrpc_invoke_send. -/
  | check (p : Nat)
  | sent (p : Nat)
  /-- get_args or the transport fails. -/
  | fail (p : Nat)
  | enter (p : Nat) (poll_mode : Bool)
  | turn (p : Nat)
  | poll (p : Nat) (r : Poll)
  /-- A signal ends the wait of a user call for a completion that is not there. -/
  | signal (p : Nat)
  | notifier
  deriving DecidableEq, Repr

/-- Where the thread of a context has to be for a section of the channel. When the session
closes, no thread is in a call: only the parked contexts are left for the dtor. -/
def mayTake (s : Domain) : context_table.Act → Bool
  | .alloc_begin p v _ _ isasyncjob => s.bound v && !isasyncjob && (s.chan.ctx p).isNone
  | .save_interrupted p => (s.waiter p).pc == .signalled
  | .restore_interrupted p => (s.waiter p).pc == .parked
  | .dtor p => (s.waiter p).pc == .parked
  | .free p => (s.waiter p).pc == .out
  | _ => true

/-- Where a section of the channel takes the thread of its context. -/
def follow (s : Domain) : context_table.Act → Domain
  | .alloc_begin p _ _ _ _ => s.setWaiter p ⟨.alloc, 0, none⟩
  | .alloc_list p => s.setWaiter p ((s.waiter p).goto .ready)
  | .save_interrupted p => s.setWaiter p ((s.waiter p).goto .parked)
  | .restore_interrupted p => s.setWaiter p ((s.waiter p).goto .wait)
  | _ => s

/-- A step of the thread at `p`, with its context. -/
def onWaiter (s : Domain) (p : Nat) (f : Waiter → InvokeCtx → Option (Waiter × InvokeCtx)) :
    Option Domain :=
  (s.chan.ctx p).bind fun c => (f (s.waiter p) c).map (s.put p)

/-- A step from one place to another. -/
def from_to (a b : Pc) (w : Waiter) (c : InvokeCtx) : Option (Waiter × InvokeCtx) :=
  if w.pc = a then some (w.goto b, c) else none

def invoke_check (s : Domain) (w : Waiter) (c : InvokeCtx) : Option (Waiter × InvokeCtx) :=
  if w.pc = .ready then
    if s.fl_ssrcount c.vfl = s.ssrcount then
      some ({ w with pc := .checked, passed := some s.shutdowns }, c)
    else some (w.goto .out, c)
  else none

def step (sh : WaitShared) (s : Domain) : Act → Option Domain
  | .open_session v =>
    if s.hlocked ∨ v ∈ s.drivers then none
    else some { s with
      drivers := v :: s.drivers
      bound := fun w => if w = v then false else s.bound w }
  | .get_info v =>
    if v ∈ s.drivers ∧ s.bound v = false then
      some { s with
        bound := fun w => if w = v then true else s.bound w
        fl_ssrcount := fun w => if w = v then s.ssrcount else s.fl_ssrcount w }
    else none
  | .channel_open v =>
    if s.bound v ∧ s.subsystemstate = .SUBSYSTEM_UP then
      some { s with fl_ssrcount := fun w => if w = v then s.ssrcount else s.fl_ssrcount w }
    else some s
  | .file_free v =>
    if s.hlocked ∨ s.chan.ctxs.any (·.vfl == v) then none
    else some { s with
      drivers := s.drivers.filter (· != v)
      bound := fun w => if w = v then false else s.bound w }
  | .ctx a =>
    if mayTake s a then
      (context_table.step sh.toAdsprpcShared s.chan a).map fun t => { follow s a with chan := t }
    else none
  | .check p => onWaiter s p (invoke_check s)
  | .sent p => onWaiter s p (from_to .checked .wait)
  | .fail p => onWaiter s p fun w c =>
    if w.pc = .ready ∨ w.pc = .checked then some (w.goto .out, c) else none
  | .enter p poll_mode => onWaiter s p fun w c =>
    if w.pc = .wait then some (enter_wait sh poll_mode w c) else none
  | .turn p => onWaiter s p (wait_turn sh)
  | .poll p r => onWaiter s p fun w c => poll_turn sh w c r
  | .signal p => onWaiter s p fun w c =>
    if c.kernel_msg = false ∧ c.work = 0 then from_to .blocked .signalled w c else none
  | .notifier => fastrpc_restart_notifier_cb s

/-! ## What a section of the channel does to a context -/

/-- A context after some sections: a call that is done stays done, and one that has become
done got a wake-up with it. -/
structure Grown (c d : InvokeCtx) : Prop where
  vfl : d.vfl = c.vfl
  isasyncjob : d.isasyncjob = c.isasyncjob
  done : c.is_work_done = true → d.is_work_done = true
  work : c.work ≤ d.work
  answered : d.is_work_done = true → c.is_work_done = true ∨ 0 < d.work

theorem Grown.refl (c : InvokeCtx) : Grown c c :=
  ⟨rfl, rfl, id, Nat.le_refl _, Or.inl⟩

/-- A change of the id, the node and the phase of a context. -/
theorem Grown.same (c : InvokeCtx) {id : BitVec 64} {n : Node} {ph : Phase} :
    Grown c { c with ctxid := id, hn := n, phase := ph } :=
  ⟨rfl, rfl, fun h => h, Nat.le_refl _, Or.inl⟩

theorem Grown.trans {c d e : InvokeCtx} (h : Grown c d) (g : Grown d e) : Grown c e where
  vfl := g.vfl.trans h.vfl
  isasyncjob := g.isasyncjob.trans h.isasyncjob
  done := fun hc => g.done (h.done hc)
  work := Nat.le_trans h.work g.work
  answered := by
    intro he
    rcases g.answered he with hd | hw
    · rcases h.answered hd with hc | hw
      · exact Or.inl hc
      · exact Or.inr (Nat.lt_of_lt_of_le hw g.work)
    · exact Or.inr hw

/-- The context whose thread a section of the channel takes along. -/
def turned : context_table.Act → Option Nat
  | .alloc_list p | .save_interrupted p | .restore_interrupted p => some p
  | _ => none

/-- Where a section of the channel moves the node and the phase of the context at `q`. -/
inductive Move : context_table.Act → Nat → Node → Phase → Node → Phase → Prop
  | keep (a : context_table.Act) (q : Nat) (n : Node) (ph : Phase) (h : turned a ≠ some q) :
    Move a q n ph n ph
  | alloc_fail (q : Nat) (n : Node) : Move (.alloc_fail q) q n .built n .dying
  | alloc_entry (q : Nat) (n : Node) : Move (.alloc_entry q) q n .built n .tabled
  | alloc_full (q : Nat) (n : Node) : Move (.alloc_entry q) q n .built n .dying
  | alloc_list (q : Nat) (n : Node) : Move (.alloc_list q) q n .tabled .pending .live
  | save (q : Nat) : Move (.save_interrupted q) q .pending .live .interrupted .live
  | restore (q : Nat) : Move (.restore_interrupted q) q .interrupted .live .pending .live
  | dtor (q : Nat) (n : Node) : Move (.dtor q) q n .live .unhashed .dying
  | free (q : Nat) (n : Node) : Move (.free q) q n .live n .dying
  | free_entry (q : Nat) (n : Node) : Move (.free_entry q) q n .dying n .unlinked
  | free_list (q : Nat) (n : Node) : Move (.free_list q) q n .unlinked .unhashed .delisted

theorem setCtx_cases {s : Chan} {p q : Nat} {f : InvokeCtx → InvokeCtx} {d : InvokeCtx}
    (hptr : ∀ x, (f x).ptr = x.ptr) (h : (s.setCtx p f).ctx q = some d) :
    q ≠ p ∧ s.ctx q = some d ∨ q = p ∧ ∃ c, s.ctx p = some c ∧ d = f c := by
  by_cases hq : q = p
  · subst hq
    rw [ctx_setCtx_self hptr] at h
    obtain ⟨c, hc, he⟩ := Option.map_eq_some_iff.mp h
    exact Or.inr ⟨rfl, c, hc, he.symm⟩
  · rw [ctx_setCtx_ne hptr hq] at h
    exact Or.inl ⟨hq, h⟩

theorem setCtx_setCtx (s : Chan) (p : Nat) {f g : InvokeCtx → InvokeCtx}
    (hptr : ∀ x, (f x).ptr = x.ptr) :
    (s.setCtx p f).setCtx p g = s.setCtx p (fun x => g (f x)) := by
  unfold Chan.setCtx
  rw [update_update hptr]

/-- A response to a synchronous call changes its context and nothing else. -/
theorem notify_user_sync (sh : AdsprpcShared) (s : Chan) {c : InvokeCtx}
    (hc : c.isasyncjob = false) (retval : Int) (flags early : BitVec 32) :
    ∃ f, context_notify_user sh s c retval flags early = s.setCtx c.ptr f ∧
      Quiet f ∧ ∀ x, Grown x (f x) := by
  unfold context_notify_user
  dsimp only
  simp only [hc, Bool.false_eq_true, if_false]
  split
  · rw [setCtx_setCtx, setCtx_setCtx]
    · refine ⟨_, rfl, fun x => ⟨rfl, rfl, rfl, rfl, rfl⟩, fun x => ?_⟩
      exact ⟨rfl, rfl, fun _ => rfl, Nat.le_succ _, fun _ => Or.inr (Nat.succ_pos _)⟩
    · intro x; rfl
    · intro x; rfl
  · split
    · rw [setCtx_setCtx, setCtx_setCtx]
      · refine ⟨_, rfl, fun x => ⟨rfl, rfl, rfl, rfl, rfl⟩, fun x => ?_⟩
        exact ⟨rfl, rfl, id, Nat.le_succ _, Or.inl⟩
      · intro x; rfl
      · intro x; rfl
    · split
      · rw [setCtx_setCtx]
        · refine ⟨_, rfl, fun x => ⟨rfl, rfl, rfl, rfl, rfl⟩, fun x => ?_⟩
          exact ⟨rfl, rfl, id, Nat.le_succ _, Or.inl⟩
        · intro x; rfl
      · refine ⟨_, rfl, fun x => ⟨rfl, rfl, rfl, rfl, rfl⟩, fun x => ?_⟩
        exact ⟨rfl, rfl, id, Nat.le_refl _, Or.inl⟩

/-- The context that context_alloc begins with. -/
def fresh (sh : AdsprpcShared) (p v : Nat) (handle : BitVec 32) (kernel_msg isasyncjob : Bool) :
    InvokeCtx :=
  { ptr := p, vfl := v, handle, kernel_msg, isasyncjob, ctxid := 0, magic := FASTRPC_CTX_MAGIC,
    retval := -1, rsp_flags := sh.NORMAL_RESPONSE, early_wake_time := 0, is_work_done := false,
    is_early_wakeup := false, work := 0, asyncn := .fake, hn := .fake, phase := .built }

theorem alloc_begin_cases {sh : AdsprpcShared} {s t : Chan} {p v : Nat} {h : BitVec 32} {k b : Bool}
    (ht : context_alloc_begin sh s p v h k b = some t) :
    t = s ∨ s.ctx p = none ∧ t = { s with ctxs := fresh sh p v h k b :: s.ctxs } := by
  rcases context_alloc_begin_cases ht with rfl | ⟨_, hnone, rfl⟩
  · exact Or.inl rfl
  · exact Or.inr ⟨hnone, rfl⟩

theorem ctx_cons_cases {s : Chan} {p q : Nat} {c d : InvokeCtx} (hc : c.ptr = p)
    (h : { s with ctxs := c :: s.ctxs }.ctx q = some d) : q = p ∧ d = c ∨ s.ctx q = some d := by
  subst hc
  by_cases hq : q = c.ptr
  · subst hq
    have hd := (@lookup_cons_self _ InvokeCtx.ptr _ _).symm.trans h
    exact Or.inl ⟨rfl, (Option.some.inj hd).symm⟩
  · exact Or.inr ((lookup_cons_ne (fun he => hq he.symm)).symm.trans h)

theorem ctx_free_end {s : Chan} {c d : InvokeCtx} {q : Nat}
    (h : (context_free_end s c).ctx q = some d) : s.ctx q = some d := by
  by_cases hq : q = c.ptr
  · subst hq
    exact absurd (key_of_lookup h) (mem_remove.mp (mem_of_lookup h)).2
  · exact (lookup_remove_ne hq).symm.trans h

/-- Every context after a section of the channel is a new one, or it was there before and has
moved as the section says. -/
theorem chan_step_cases {sh : AdsprpcShared} {s t : Chan} {a : context_table.Act} {q : Nat}
    {d : InvokeCtx} (hsync : ∀ p c, s.ctx p = some c → c.isasyncjob = false)
    (ht : context_table.step sh s a = some t) (hd : t.ctx q = some d) :
    (∃ v h k b, a = .alloc_begin q v h k b ∧ s.ctx q = none ∧ d = fresh sh q v h k b) ∨
      ∃ c, s.ctx q = some c ∧ Grown c d ∧ Move a q c.hn c.phase d.hn d.phase := by
  have hkept : s.ctx q = some d → turned a ≠ some q →
      ∃ c, s.ctx q = some c ∧ Grown c d ∧ Move a q c.hn c.phase d.hn d.phase :=
    fun h hq => ⟨d, h, Grown.refl d, .keep a q d.hn d.phase hq⟩
  -- a section on one context, which changes its node and its phase and no more
  have hone : ∀ {u : Chan} {c : InvokeCtx} (f : InvokeCtx → InvokeCtx), t = u →
      s.ctx c.ptr = some c → (∀ r, u.ctx r = (s.setCtx c.ptr f).ctx r) →
      (∀ x, (f x).ptr = x.ptr) → turned a = none ∨ turned a = some c.ptr → Grown c (f c) →
      Move a c.ptr c.hn c.phase (f c).hn (f c).phase →
      ∃ c, s.ctx q = some c ∧ Grown c d ∧ Move a q c.hn c.phase d.hn d.phase := by
    intro u c f htu hc hu hptr hturn hg hm
    subst htu
    rw [hu q] at hd
    rcases setCtx_cases hptr hd with ⟨hq, h⟩ | ⟨rfl, e, he, rfl⟩
    · refine hkept h ?_
      rcases hturn with hturn | hturn
      · rw [hturn]; exact nofun
      · rw [hturn]; exact fun he => hq (Option.some.inj he).symm
    · rw [hc] at he
      cases he
      exact ⟨c, hc, hg, hm⟩
  cases a with
  | alloc_begin p v h k b =>
    rcases alloc_begin_cases ht with rfl | ⟨hnone, rfl⟩
    · exact Or.inr (hkept hd nofun)
    · rcases ctx_cons_cases rfl hd with ⟨rfl, rfl⟩ | hd
      · exact Or.inl ⟨v, h, k, b, rfl, hnone, rfl⟩
      · exact Or.inr (hkept hd nofun)
  | response r =>
    cases ht
    refine Or.inr ?_
    rcases response_cases sh s r with ⟨c, flags, early, _, hc, _, he⟩ | ⟨_, n, he⟩
    · obtain ⟨f, hf, hquiet, hgrown⟩ :=
        notify_user_sync sh s (hsync _ _ hc) r.retval flags early
      refine hone f (by rw [he]; exact hf) hc (fun _ => rfl) (fun x => (hquiet x).1) (Or.inl rfl)
        (hgrown c) ?_
      rw [(hquiet c).2.2.2.1, (hquiet c).2.2.2.2]
      exact .keep _ _ _ _ nofun
    · rw [he] at hd
      exact hkept hd nofun
  | alloc_fail p =>
    obtain ⟨c, rfl, hc, hp, he⟩ := onCtx_at ht
    have hp : c.phase = .built := by simpa using hp
    refine Or.inr (hone (.goto .dying) he hc (fun _ => rfl) (fun _ => rfl)
      (Or.inl rfl) (Grown.same c) ?_)
    rw [hp]
    exact .alloc_fail _ _
  | alloc_entry p =>
    obtain ⟨c, rfl, hc, hp, he⟩ := onCtx_at ht
    have hp : c.phase = .built := by simpa using hp
    refine Or.inr ?_
    unfold context_alloc_entry at he
    dsimp only at he
    split at he
    · refine hone (.enter _) he hc (fun _ => rfl) (fun _ => rfl) (Or.inl rfl) (Grown.same c) ?_
      rw [hp]
      exact .alloc_entry _ _
    · refine hone (.goto .dying) he hc (fun _ => rfl) (fun _ => rfl) (Or.inl rfl) (Grown.same c) ?_
      rw [hp]
      exact .alloc_full _ _
  | alloc_list p =>
    obtain ⟨c, rfl, hc, hp, he⟩ := onCtx_at ht
    have hp : c.phase = .tabled := by simpa using hp
    refine Or.inr (hone (fun x => { x with hn := .pending, phase := .live }) he hc
      (fun _ => rfl) (fun _ => rfl) (Or.inr rfl) (Grown.same c) ?_)
    rw [hp]
    exact .alloc_list _ _
  | save_interrupted p =>
    obtain ⟨c, rfl, hc, hp, he⟩ := onCtx_at ht
    obtain ⟨hp, hn⟩ : c.phase = .live ∧ c.hn = .pending := by simpa using hp
    refine Or.inr (hone (fun x => { x with hn := .interrupted }) he hc (fun _ => rfl) (fun _ => rfl)
      (Or.inr rfl) (Grown.same c) ?_)
    rw [hn]
    rw [hp]
    exact .save _
  | restore_interrupted p =>
    obtain ⟨c, rfl, hc, hp, he⟩ := onCtx_at ht
    obtain ⟨hp, hn⟩ : c.phase = .live ∧ c.hn = .interrupted := by simpa using hp
    refine Or.inr (hone (fun x => { x with hn := .pending }) he hc (fun _ => rfl) (fun _ => rfl)
      (Or.inr rfl) (Grown.same c) ?_)
    rw [hn]
    rw [hp]
    exact .restore _
  | dtor p =>
    obtain ⟨c, rfl, hc, hp, he⟩ := onCtx_at ht
    have hp : c.phase = .live := by simpa using hp
    refine Or.inr (hone (fun x => { x with hn := .unhashed, phase := .dying }) he hc
      (fun _ => rfl) (fun _ => rfl) (Or.inl rfl) (Grown.same c) ?_)
    rw [hp]
    exact .dtor _ _
  | free p =>
    obtain ⟨c, rfl, hc, hp, he⟩ := onCtx_at ht
    have hp : c.phase = .live := by simpa using hp
    refine Or.inr (hone (.goto .dying) he hc (fun _ => rfl) (fun _ => rfl)
      (Or.inl rfl) (Grown.same c) ?_)
    rw [hp]
    exact .free _ _
  | free_entry p =>
    obtain ⟨c, rfl, hc, hp, he⟩ := onCtx_at ht
    have hp : c.phase = .dying := by simpa using hp
    refine Or.inr ?_
    refine hone (.goto .unlinked) he hc (ctx_free_entry s c) (fun _ => rfl) (Or.inl rfl)
      (Grown.same c) ?_
    rw [hp]
    exact .free_entry _ _
  | free_list p =>
    obtain ⟨c, rfl, hc, hp, he⟩ := onCtx_at ht
    have hp : c.phase = .unlinked := by simpa using hp
    refine Or.inr ?_
    unfold context_free_list at he
    split at he
    · rename_i hun
      have hun : c.hn = .unhashed := by simpa [hlist_unhashed] using hun
      refine hone (.goto .delisted) he hc (fun _ => rfl) (fun _ => rfl)
        (Or.inl rfl) (Grown.same c) ?_
      rw [hp]
      show Move _ _ c.hn .unlinked c.hn .delisted
      rw [hun]
      exact .free_list _ _
    · refine hone (fun x => { x with hn := .unhashed, phase := .delisted }) he hc (fun _ => rfl)
        (fun _ => rfl) (Or.inl rfl) (Grown.same c) ?_
      rw [hp]
      exact .free_list _ _
  | free_end p =>
    obtain ⟨c, _, _, rfl⟩ := onCtx_some ht
    exact Or.inr (hkept (ctx_free_end hd) nofun)

theorem ctx_setCtx_some {s : Chan} {p q : Nat} {f : InvokeCtx → InvokeCtx} {c : InvokeCtx}
    (hptr : ∀ x, (f x).ptr = x.ptr) (h : s.ctx q = some c) :
    ∃ d, (s.setCtx p f).ctx q = some d := by
  by_cases hq : q = p
  · subst hq
    rw [ctx_setCtx_self hptr, h]
    exact ⟨_, rfl⟩
  · rw [ctx_setCtx_ne hptr hq]
    exact ⟨c, h⟩

/-- Only the end of context_free takes a context away. -/
theorem chan_step_some {sh : AdsprpcShared} {s t : Chan} {a : context_table.Act} {q : Nat}
    {c : InvokeCtx} (hsync : ∀ p c, s.ctx p = some c → c.isasyncjob = false)
    (ht : context_table.step sh s a = some t) (hc : s.ctx q = some c) (ha : a ≠ .free_end q) :
    ∃ d, t.ctx q = some d := by
  cases a with
  | alloc_begin p v h k b =>
    rcases alloc_begin_cases ht with rfl | ⟨hnone, rfl⟩
    · exact ⟨c, hc⟩
    · have hne : p ≠ q := by
        rintro rfl
        rw [hnone] at hc
        cases hc
      exact ⟨c, (lookup_cons_ne hne).trans hc⟩
  | response r =>
    cases ht
    rcases response_cases sh s r with ⟨e, flags, early, _, he, _, heq⟩ | ⟨_, n, heq⟩
    · obtain ⟨f, hf, hquiet, _⟩ := notify_user_sync sh s (hsync _ _ he) r.retval flags early
      rw [heq]
      dsimp only
      rw [hf]
      exact ctx_setCtx_some (fun x => (hquiet x).1) hc
    · rw [heq]
      exact ⟨c, hc⟩
  | free_end p =>
    obtain ⟨e, rfl, _, _, rfl⟩ := onCtx_at ht
    have hq : q ≠ e.ptr := fun he => ha (by rw [he])
    exact ⟨c, (lookup_remove_ne hq).trans hc⟩
  | alloc_entry p =>
    obtain ⟨e, _, _, rfl⟩ := onCtx_some ht
    unfold context_alloc_entry
    dsimp only
    split
    · exact ctx_setCtx_some (f := .enter _) (fun _ => rfl) hc
    · exact ctx_setCtx_some (f := .goto .dying) (fun _ => rfl) hc
  | free_entry p =>
    obtain ⟨e, _, _, rfl⟩ := onCtx_some ht
    rw [ctx_free_entry]
    exact ctx_setCtx_some (f := .goto .unlinked) (fun _ => rfl) hc
  | free_list p =>
    obtain ⟨e, _, _, rfl⟩ := onCtx_some ht
    unfold context_free_list
    split
    · exact ctx_setCtx_some (f := .goto .delisted) (fun _ => rfl) hc
    · exact ctx_setCtx_some (by intro x; rfl) hc
  | _ =>
    obtain ⟨e, _, _, rfl⟩ := onCtx_some ht
    exact ctx_setCtx_some (by intro x; rfl) hc

end virtual_fastrpc.restart_waits
