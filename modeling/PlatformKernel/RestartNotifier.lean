-- A restart of a subsystem on its way from the host to the sessions of the hybrid
-- driver: subsystem_notif_virt tells the SSR framework, which is not part of the
-- repository, and the framework may call fastrpc_restart_notifier_cb of
-- hybrid_fastrpc_vdev.c, which counts the shutdowns of its channel and announces
-- the restart to the sessions.
import PlatformKernel.SubsystemNotif
import PlatformKernel.PdStatus
import PlatformKernel.RestartWaits

namespace virtual_fastrpc.restart_notifier

open step_runs keyed virtual_fastrpc.pd_status
open restart_waits (Subsystem ECONNRESET)
open subsystem_notif_virt (Subsystems SubsystemDescriptor SsrNotify ssr_type Quiet Turns Handshake)

/-! ## The two drivers -/

/-- The subsystems of the device tree, and the value of a notification, which is from
adsprpc_shared.h. -/
structure Setup where
  subs : Subsystems
  FASTRPC_DSP_SSR : BitVec 32

/-- `struct vfastrpc_channel_ctx` as far as a restart goes. The last field is for the laws only: the
events that the callback was told for the channel. -/
structure Channel where
  ssrcount : BitVec 64
  subsystemstate : Subsystem
  events : List SsrNotify
  deriving DecidableEq, Repr

/-- A session, and what it has read of its notifications. The last two fields are for the laws
only: how many events its channel had been told when the session was bound to it, and when it
last copied the count of the channel. -/
structure Session where
  fl : File
  ssrcount : BitVec 64
  read : List SmqNotifRsp
  bound : Nat
  copied : Nat

/-- Both drivers. -/
structure System where
  ssr : subsystem_notif_virt.State
  channel : Nat → Channel
  drivers : List Session

/-- What hfastrpc_init leaves of a channel. -/
def hfastrpc_init : Channel := ⟨0, .SUBSYSTEM_UP, []⟩

def init (regs : Nat → BitVec 32) : System :=
  ⟨subsystem_notif_virt.init regs, fun _ => hfastrpc_init, []⟩

def hfastrpc_file_alloc (ptr : Nat) : Session :=
  ⟨⟨dsp_signals.hfastrpc_file_alloc ptr, 0, [], 0⟩, 0, [], 0, 0⟩

/-- `fastrpc_queue_pd_status` for a session. -/
def Session.queue_pd_status (f : Session) (domain : Int) (status : BitVec 32) (alloc_ok : Bool) :
    Session :=
  { f with fl := fastrpc_queue_pd_status f.fl domain status f.fl.sessionid alloc_ok }

section

variable (z : Setup)

/-- The allocation of a notification can fail, for each session on its own. -/
def fastrpc_notify_drivers (drivers : List Session) (domain : Nat) (alloc_ok : Nat → Bool) :
    List Session :=
  drivers.map (fun f =>
    if f.fl.domain = (domain : Int) then
      f.queue_pd_status domain z.FASTRPC_DSP_SSR (alloc_ok f.fl.ptr)
    else f)

/-- What the callback does with the count and the state of its channel. -/
def Channel.told (c : Channel) (code : SsrNotify) : Channel :=
  let c : Channel := { c with events := c.events ++ [code] }
  match code with
  | .QCOM_SSR_BEFORE_SHUTDOWN =>
    { c with ssrcount := c.ssrcount + 1, subsystemstate := .SUBSYSTEM_RESTARTING }
  | .QCOM_SSR_AFTER_SHUTDOWN => { c with subsystemstate := .SUBSYSTEM_DOWN }
  | .QCOM_SSR_BEFORE_POWERUP => c
  | .QCOM_SSR_AFTER_POWERUP => { c with subsystemstate := .SUBSYSTEM_UP }
  | .QCOM_SSR_TYPE_INVALID => c

def fastrpc_restart_notifier_cb (s : System) (domain : Nat) (code : SsrNotify)
    (alloc_ok : Nat → Bool) : System :=
  { s with
    channel := Function.update s.channel domain ((s.channel domain).told code)
    drivers :=
      if code = .QCOM_SSR_BEFORE_POWERUP then fastrpc_notify_drivers z s.drivers domain alloc_ok
      else s.drivers }

/-- What a step of subsystem_notif_virt gives to qcom_notify_ssr_clients. -/
def told (s : subsystem_notif_virt.State) : subsystem_notif_virt.Act → Option (Nat × SsrNotify)
  | .work_notify _ =>
    match s.worker with
    | .read i state => some (i, state)
    | _ => none
  | _ => none

inductive Act
  /-- A step of subsystem_notif_virt. Of what it gives to qcom_notify_ssr_clients the SSR framework
  tells the channel `called`, or none. -/
  | ssr (a : subsystem_notif_virt.Act) (called : Option Nat) (alloc_ok : Nat → Bool)
  /-- The SSR framework tells a channel of an event of its own, as of a native subsystem. -/
  | fastrpc_restart_notifier_cb (domain : Nat) (code : SsrNotify) (alloc_ok : Nat → Bool)
  | hfastrpc_open (ptr : Nat)
  /-- hfastrpc_set_session_info, behind its checks. -/
  | set_session_info (ptr : Nat) (sessionid : Int)
  /-- The end of hfastrpc_get_info: the domain first, and then the count. -/
  | get_info_domain (ptr domain : Nat)
  | get_info_ssrcount (ptr : Nat)
  | hfastrpc_channel_open (ptr : Nat)
  /-- The reply of the backend to virt_fastrpc_open. -/
  | virt_fastrpc_open (ptr : Nat) (upid : BitVec 32)
  /-- A status message of the DSP. -/
  | fastrpc_notif_find_process (domain : Int) (notif : SmqNotifRspv3) (alloc_ok : Bool)
  /-- A thread takes a notification in hfastrpc_wait_on_notif_queue. -/
  | wait_on_notif_queue (ptr : Nat)
  | hfastrpc_file_free (ptr : Nat)

/-- The session changes. -/
def System.on (s : System) (ptr : Nat) (g : Session → Session) : System :=
  { s with drivers := update (fun f => f.fl.ptr) s.drivers ptr g }

/-- The channel of a session, when it is bound to one. -/
def System.channel_ctx (s : System) (f : Session) : Option Channel :=
  if 0 ≤ f.fl.domain then some (s.channel f.fl.domain.toNat) else none

def Session.copy_ssrcount (f : Session) (c : Channel) : Session :=
  { f with ssrcount := c.ssrcount, copied := c.events.length }

/-- The thread has found `n` at the head of the queue. -/
def Session.take (f : Session) : Session :=
  match f.fl.notif_queue with
  | [] => f
  | n :: rest =>
    { f with
      fl := { f.fl with notif_queue := rest, notif_queue_count := f.fl.notif_queue_count - 1 }
      read := f.read ++ [n] }

/-- The session of the pointer, when it is open. -/
def System.file (s : System) (ptr : Nat) : Option Session :=
  lookup (fun f => f.fl.ptr) s.drivers ptr

def step (s : System) : Act → Option System
  | .ssr a called alloc_ok =>
    (subsystem_notif_virt.step z.subs s.ssr a).map (fun t =>
      match told s.ssr a, called with
      | some (_, code), some domain =>
        fastrpc_restart_notifier_cb z { s with ssr := t } domain code alloc_ok
      | _, _ => { s with ssr := t })
  | .fastrpc_restart_notifier_cb domain code alloc_ok =>
    some (fastrpc_restart_notifier_cb z s domain code alloc_ok)
  | .hfastrpc_open ptr =>
    if (s.file ptr).isSome then none
    else some { s with drivers := hfastrpc_file_alloc ptr :: s.drivers }
  | .set_session_info ptr sessionid =>
    some (s.on ptr (fun f => { f with fl := { f.fl with sessionid := sessionid } }))
  | .get_info_domain ptr domain =>
    some (s.on ptr (fun f =>
      if f.fl.domain = -1 then
        { f with fl := { f.fl with domain := domain }, bound := (s.channel domain).events.length }
      else f))
  | .get_info_ssrcount ptr =>
    some (s.on ptr (fun f => (s.channel_ctx f).elim f f.copy_ssrcount))
  | .hfastrpc_channel_open ptr =>
    some (s.on ptr (fun f =>
      (s.channel_ctx f).elim f (fun c =>
        if c.subsystemstate = .SUBSYSTEM_UP then f.copy_ssrcount c else f)))
  | .virt_fastrpc_open ptr upid =>
    some (s.on ptr (fun f => { f with fl := { f.fl with upid := upid } }))
  | .fastrpc_notif_find_process domain notif alloc_ok =>
    match (Apps.mk (s.drivers.map Session.fl)).notified notif.pid with
    | some fl => some (s.on fl.ptr (fun f => f.queue_pd_status domain notif.status alloc_ok))
    | none => some s
  | .wait_on_notif_queue ptr => some (s.on ptr Session.take)
  | .hfastrpc_file_free ptr => some { s with drivers := remove (fun f => f.fl.ptr) s.drivers ptr }

/-- The check of hfastrpc_invoke_send, before a message goes to the transport. -/
def hfastrpc_invoke_send_check (s : System) (f : Session) : Int :=
  match s.channel_ctx f with
  | some c => if f.ssrcount ≠ c.ssrcount then -ECONNRESET else 0
  | none => -44

end

/-- The SSR framework tells the channel `d` of what subsystem_notif_virt gives it for the subsystem
`i`, and of nothing else. So it does when `i` is a virtual subsystem, hfastrpc_init has registered
the notifier of the channel for it, and no other client of `i` stops the notification before. -/
def Delivers (i d : Nat) (s : System) : Act → Prop
  | .ssr a called _ => ∀ j code, told s.ssr a = some (j, code) → (called = some d ↔ j = i)
  | .fastrpc_restart_notifier_cb domain _ _ => domain ≠ d
  | _ => True

/-- No allocation fails, and the DSP sends no status that is an announcement of the driver. -/
def Undisturbed (z : Setup) : Act → Prop
  | .ssr _ _ ok => ∀ p, ok p = true
  | .fastrpc_restart_notifier_cb _ _ ok => ∀ p, ok p = true
  | .fastrpc_notif_find_process _ notif _ => notif.status ≠ z.FASTRPC_DSP_SSR
  | _ => True

/-- An undisturbed step of a host that waits for the work, and of an SSR framework that tells the
channel of it. -/
structure Calm (z : Setup) (i d : Nat) (s : System) (act : Act) : Prop where
  undisturbed : Undisturbed z act
  handshake : ∀ a called ok, act = .ssr a called ok → Handshake i s.ssr a
  delivers : Delivers i d s act

/-! ## What the clients are told -/

section

variable {z : Setup} {s t : System}

/-- The one event that a step tells, if it tells one of the subsystem. -/
def news (i : Nat) (o : Option (Nat × SsrNotify)) : List SsrNotify :=
  match o with
  | some (j, code) => if j = i then [code] else []
  | none => []

/-- The events of a subsystem grow by what `told` says. -/
theorem ssr_step {a : subsystem_notif_virt.Act} {u v : subsystem_notif_virt.State}
    (h : subsystem_notif_virt.step z.subs u a = some v) (i : Nat) :
    v.events i = u.events i ++ news i (told u a) := by
  cases a with
  | host_write j w =>
    obtain ⟨_, _, rfl⟩ := Option.map_eq_some_iff.mp h
    simp [told, news, subsystem_notif_virt.State.events, subsystem_notif_virt.writel]
  | subsystem_restart_irq_handler j =>
    obtain ⟨_, _, rfl⟩ := Option.map_eq_some_iff.mp h
    simp [told, news, subsystem_notif_virt.State.events]
  | work_start =>
    simp only [subsystem_notif_virt.step] at h
    split at h
    · cases h
      simp [told, news, subsystem_notif_virt.State.events]
    · cases h
  | work_read =>
    simp only [subsystem_notif_virt.step] at h
    split at h
    · obtain ⟨e, he, rfl⟩ := Option.map_eq_some_iff.mp h
      simp [told, news, subsystem_notif_virt.State.events]
    · cases h
  | work_notify ret =>
    simp only [subsystem_notif_virt.step] at h
    split at h
    · rename_i j state hw
      cases h
      simp only [told, hw, news, subsystem_notif_virt.State.events]
      by_cases hj : j = i
      · subst hj
        simp
      · simp [hj, Function.update_of_ne (Ne.symm hj)]
    · cases h
  | work_reply =>
    simp only [subsystem_notif_virt.step] at h
    split at h
    · obtain ⟨_, _, rfl⟩ := Option.map_eq_some_iff.mp h
      simp [told, news, subsystem_notif_virt.State.events, subsystem_notif_virt.writel]
    · cases h
  | subsystem_state_callback j w =>
    obtain ⟨_, _, rfl⟩ := Option.map_eq_some_iff.mp h
    simp [told, news, subsystem_notif_virt.State.events, subsystem_notif_virt.writel]

/-! ## The channel follows its events -/

/-- The state that an event puts a channel in. -/
def state_of : SsrNotify → Option Subsystem
  | .QCOM_SSR_BEFORE_SHUTDOWN => some .SUBSYSTEM_RESTARTING
  | .QCOM_SSR_AFTER_SHUTDOWN => some .SUBSYSTEM_DOWN
  | .QCOM_SSR_AFTER_POWERUP => some .SUBSYSTEM_UP
  | _ => none

/-- The state of a channel after its events. -/
def state_after (events : List SsrNotify) : Subsystem :=
  (events.filterMap state_of).getLast?.getD .SUBSYSTEM_UP

/-- The shutdowns among the events. -/
def shutdowns (events : List SsrNotify) : Nat := events.count .QCOM_SSR_BEFORE_SHUTDOWN

/-- The count and the state of a channel are those of its events. -/
structure Channel.Sound (c : Channel) : Prop where
  count : c.ssrcount = BitVec.ofNat 64 (shutdowns c.events)
  state : c.subsystemstate = state_after c.events

theorem sound_init : hfastrpc_init.Sound := by
  constructor <;> rfl

@[simp] theorem events_told (c : Channel) (code : SsrNotify) :
    (c.told code).events = c.events ++ [code] := by
  cases code <;> rfl

theorem Channel.Sound.told {c : Channel} (h : c.Sound) (code : SsrNotify) :
    (c.told code).Sound := by
  obtain ⟨hc, hs⟩ := h
  constructor
  · rw [events_told, shutdowns, List.count_append, ← shutdowns, BitVec.ofNat_add, ← hc]
    cases code <;> simp [Channel.told]
  · rw [events_told, state_after, List.filterMap_append]
    cases code <;> simp [Channel.told, state_of, hs, state_after]

/-! ## The steps of the system -/

/-- A step of the host, the interrupt or the work: nobody of the driver is told, or one channel
is. -/
theorem ssr_cases {a : subsystem_notif_virt.Act} {called : Option Nat} {alloc_ok : Nat → Bool}
    (ht : step z s (.ssr a called alloc_ok) = some t) :
    ∃ v, subsystem_notif_virt.step z.subs s.ssr a = some v ∧
      ((t = { s with ssr := v } ∧ (told s.ssr a = none ∨ called = none)) ∨
        ∃ i code d, told s.ssr a = some (i, code) ∧ called = some d ∧
          t = fastrpc_restart_notifier_cb z { s with ssr := v } d code alloc_ok) := by
  obtain ⟨v, hv, ht⟩ := Option.map_eq_some_iff.mp ht
  refine ⟨v, hv, ?_⟩
  cases htold : told s.ssr a with
  | none =>
    rw [htold] at ht
    exact Or.inl ⟨ht.symm, Or.inl rfl⟩
  | some p =>
    rw [htold] at ht
    cases called with
    | none => exact Or.inl ⟨ht.symm, Or.inr rfl⟩
    | some d => exact Or.inr ⟨p.1, p.2, d, rfl, rfl, ht.symm⟩

/-- The SSR framework has a part in the act. -/
def Act.framework : Act → Bool
  | .ssr _ _ _ => true
  | .fastrpc_restart_notifier_cb _ _ _ => true
  | _ => false

/-- A step of the user, of the DSP or of the backend: neither the subsystems nor the channels
change. -/
theorem channel_step {act : Act} (ht : step z s act = some t) (hn : act.framework = false) :
    t.ssr = s.ssr ∧ t.channel = s.channel := by
  cases act with
  | ssr a called ok => cases hn
  | fastrpc_restart_notifier_cb d code ok => cases hn
  | hfastrpc_open ptr =>
    simp only [step] at ht
    split at ht
    · cases ht
    · cases ht
      exact ⟨rfl, rfl⟩
  | fastrpc_notif_find_process domain notif ok =>
    simp only [step] at ht
    split at ht <;> cases ht <;> exact ⟨rfl, rfl⟩
  | _ =>
    cases ht
    exact ⟨rfl, rfl⟩

/-- A step tells one channel of one event, or leaves the channels as they are. -/
theorem step_cases {act : Act} (ht : step z s act = some t) :
    (∃ v d code ok, t = fastrpc_restart_notifier_cb z { s with ssr := v } d code ok) ∨
      t.channel = s.channel := by
  cases hact : act.framework with
  | false => exact Or.inr (channel_step ht hact).2
  | true =>
    cases act with
    | ssr a called ok =>
      obtain ⟨v, _, ⟨rfl, _⟩ | ⟨i, code, d, _, _, rfl⟩⟩ := ssr_cases ht
      · exact Or.inr rfl
      · exact Or.inl ⟨v, d, code, ok, rfl⟩
    | fastrpc_restart_notifier_cb d code ok =>
      cases ht
      exact Or.inl ⟨s.ssr, d, code, ok, rfl⟩
    | _ => cases hact

/-- What holds of every session holds of them behind a change of one, when the change keeps it. -/
theorem forall_on {P : Session → Prop} (h : ∀ f ∈ s.drivers, P f) {ptr : Nat}
    {g : Session → Session} (hg : ∀ f, P f → P (g f)) : ∀ f ∈ (s.on ptr g).drivers, P f := by
  intro f hf
  rcases mem_update.mp hf with ⟨hf, _⟩ | ⟨e, he, _, rfl⟩
  · exact h f hf
  · exact hg e (h e he)

theorem sound_step {act : Act} (h : ∀ d, (s.channel d).Sound) (ht : step z s act = some t) :
    ∀ d, (t.channel d).Sound := by
  rcases step_cases ht with ⟨v, d, code, ok, rfl⟩ | hchan
  · intro e
    by_cases he : e = d
    · subst he
      simpa [fastrpc_restart_notifier_cb] using (h e).told code
    · simpa [fastrpc_restart_notifier_cb, Function.update_of_ne he] using h e
  · rwa [hchan]

/-- A channel only hears more. -/
theorem events_prefix {act : Act} (ht : step z s act = some t) (d : Nat) :
    (s.channel d).events <+: (t.channel d).events := by
  rcases step_cases ht with ⟨v, e, code, ok, rfl⟩ | hchan
  · by_cases he : d = e
    · subst he
      simp [fastrpc_restart_notifier_cb]
    · simp [fastrpc_restart_notifier_cb, Function.update_of_ne he]
  · rw [hchan]

/-- A channel that hears of one subsystem hears each of its events. -/
theorem heard_step {act : Act} {i d : Nat} (h : (s.channel d).events = s.ssr.events i)
    (hc : Delivers i d s act) (ht : step z s act = some t) :
    (t.channel d).events = t.ssr.events i := by
  cases hact : act.framework with
  | false =>
    obtain ⟨hssr, hchan⟩ := channel_step ht hact
    rw [hssr, hchan]
    exact h
  | true =>
    cases act with
    | ssr a called ok =>
      obtain ⟨v, hv, hcases⟩ := ssr_cases ht
      have hev := ssr_step hv i
      rcases hcases with ⟨rfl, hnone⟩ | ⟨j, code, e, htold, rfl, rfl⟩
      · have hnews : news i (told s.ssr a) = [] := by
          rcases htold : told s.ssr a with _ | ⟨j, code⟩
          · rfl
          · have hj : j ≠ i := by
              intro hji
              have hd := (hc j code htold).mpr hji
              rcases hnone with hnone | hnone
              · rw [htold] at hnone
                cases hnone
              · rw [hnone] at hd
                cases hd
            simp [news, hj]
        rw [hev, hnews, List.append_nil]
        exact h
      · have hiff := hc j code htold
        rw [Option.some.injEq] at hiff
        show (Function.update s.channel e _ d).events = v.events i
        rw [hev, htold]
        by_cases he : e = d
        · subst he
          rw [Function.update_self, events_told, h]
          simp [news, hiff.mp rfl]
        · have hj : j ≠ i := fun hji => he (hiff.mpr hji)
          rw [Function.update_of_ne (Ne.symm he), h]
          simp [news, hj]
    | fastrpc_restart_notifier_cb e code ok =>
      cases ht
      show (Function.update s.channel e _ d).events = s.ssr.events i
      rw [Function.update_of_ne (Ne.symm hc)]
      exact h
    | _ => cases hact

/-! ## The count that a session has copied -/

/-- The count of a session is the number of the shutdowns that its channel had been told of when
the session copied it. -/
structure Copied (s : System) (f : Session) : Prop where
  unbound : f.fl.domain = -1 → f.ssrcount = 0 ∧ f.copied = 0
  le : ∀ d : Nat, f.fl.domain = d → f.copied ≤ (s.channel d).events.length
  count : ∀ d : Nat, f.fl.domain = d →
    f.ssrcount = BitVec.ofNat 64 (shutdowns ((s.channel d).events.take f.copied))

theorem Copied.mono {f : Session} (h : Copied s f)
    (hp : ∀ d, (s.channel d).events <+: (t.channel d).events) : Copied t f := by
  refine ⟨h.unbound, ?_, ?_⟩
  · intro d hd
    exact (h.le d hd).trans (hp d).length_le
  · intro d hd
    rw [h.count d hd]
    obtain ⟨l, hl⟩ := hp d
    rw [← hl, List.take_append_of_le_length (h.le d hd)]

/-- Only the domain, the count and its time matter. -/
theorem Copied.congr {f g : Session} (h : Copied s f) (hd : g.fl.domain = f.fl.domain)
    (hc : g.ssrcount = f.ssrcount) (hk : g.copied = f.copied) : Copied s g := by
  obtain ⟨hu, hl, hn⟩ := h
  constructor
  · rwa [hd, hc, hk]
  · rwa [hd, hk]
  · rwa [hd, hc, hk]

theorem Copied.copy (hs : ∀ d, (s.channel d).Sound) {f : Session} {c : Channel}
    (hc : s.channel_ctx f = some c) : Copied s (f.copy_ssrcount c) := by
  unfold System.channel_ctx at hc
  split at hc
  case isFalse => cases hc
  rename_i hd
  cases hc
  refine ⟨?_, ?_, ?_⟩
  · intro hneg
    have : f.fl.domain = -1 := hneg
    omega
  · intro d hfd
    have hfd : f.fl.domain = d := hfd
    simp [Session.copy_ssrcount, hfd]
  · intro d hfd
    have hfd : f.fl.domain = d := hfd
    simp [Session.copy_ssrcount, hfd, (hs d).count]

/-- The sessions that fastrpc_notify_drivers leaves, and what it has changed of them. -/
theorem mem_notifier_cb {d : Nat} {code : SsrNotify} {ok : Nat → Bool} {f : Session}
    (hf : f ∈ (fastrpc_restart_notifier_cb z s d code ok).drivers) :
    ∃ e ∈ s.drivers, f =
      if code = .QCOM_SSR_BEFORE_POWERUP ∧ e.fl.domain = (d : Int) then
        e.queue_pd_status d z.FASTRPC_DSP_SSR (ok e.fl.ptr)
      else e := by
  simp only [fastrpc_restart_notifier_cb] at hf
  split at hf
  · rename_i hcode
    obtain ⟨e, he, rfl⟩ := List.mem_map.mp hf
    exact ⟨e, he, by simp [hcode]⟩
  · rename_i hcode
    exact ⟨f, hf, by simp [hcode]⟩

@[simp] theorem domain_queue (f : Session) (d : Int) (status : BitVec 32) (ok : Bool) :
    (f.queue_pd_status d status ok).fl.domain = f.fl.domain := by
  unfold Session.queue_pd_status fastrpc_queue_pd_status
  split <;> rfl

theorem copied_queue {f : Session} (h : Copied s f) (d : Int) (status : BitVec 32) (ok : Bool) :
    Copied s (f.queue_pd_status d status ok) :=
  h.congr (domain_queue f d status ok) rfl rfl

@[simp] theorem domain_take (f : Session) : f.take.fl.domain = f.fl.domain := by
  unfold Session.take
  split <;> rfl

theorem copied_take {f : Session} (h : Copied s f) : Copied s f.take := by
  apply h.congr (domain_take f)
  · unfold Session.take
    split <;> rfl
  · unfold Session.take
    split <;> rfl

theorem copied_cb {u : System} {d : Nat} {code : SsrNotify} {ok : Nat → Bool}
    (hs : ∀ f ∈ u.drivers, Copied s f) :
    ∀ f ∈ (fastrpc_restart_notifier_cb z u d code ok).drivers, Copied s f := by
  intro f hf
  obtain ⟨e, he, rfl⟩ := mem_notifier_cb hf
  split
  · exact copied_queue (hs e he) _ _ _
  · exact hs e he

theorem copied_step {act : Act} (hl : ∀ d, (s.channel d).Sound)
    (hs : ∀ f ∈ s.drivers, Copied s f)
    (ht : step z s act = some t) : ∀ f ∈ t.drivers, Copied t f := by
  -- a step of the driver leaves the channels as they were
  suffices h : ∀ f ∈ t.drivers, Copied s f from
    fun f hf => (h f hf).mono (fun d => events_prefix ht d)
  cases act with
  | ssr a called ok =>
    obtain ⟨v, _, ⟨rfl, _⟩ | ⟨i, code, d, _, _, rfl⟩⟩ := ssr_cases ht
    · exact hs
    · exact copied_cb hs
  | fastrpc_restart_notifier_cb d code ok =>
    cases ht
    exact copied_cb hs
  | hfastrpc_open ptr =>
    simp only [step] at ht
    split at ht
    · cases ht
    · cases ht
      intro f hf
      rcases List.mem_cons.mp hf with rfl | hf
      · constructor <;> simp [hfastrpc_file_alloc, dsp_signals.hfastrpc_file_alloc]
      · exact hs f hf
  | set_session_info ptr sessionid =>
    cases ht
    exact forall_on hs (fun f hf => hf.congr rfl rfl rfl)
  | get_info_domain ptr domain =>
    cases ht
    apply forall_on hs
    intro f hf
    split
    · rename_i hneg
      obtain ⟨hcount, hcopied⟩ := hf.unbound hneg
      constructor
      · exact fun _ => ⟨hcount, hcopied⟩
      · intro d _
        simp [hcopied]
      · intro d _
        simp [hcount, hcopied, shutdowns]
    · exact hf
  | get_info_ssrcount ptr =>
    cases ht
    apply forall_on hs
    intro f hf
    cases hc : s.channel_ctx f with
    | none => exact hf
    | some c => exact .copy hl hc
  | hfastrpc_channel_open ptr =>
    cases ht
    apply forall_on hs
    intro f hf
    cases hc : s.channel_ctx f with
    | none => exact hf
    | some c =>
      simp only [Option.elim_some]
      split
      · exact .copy hl hc
      · exact hf
  | virt_fastrpc_open ptr upid =>
    cases ht
    exact forall_on hs (fun f hf => hf.congr rfl rfl rfl)
  | fastrpc_notif_find_process domain notif ok =>
    simp only [step] at ht
    split at ht
    · cases ht
      exact forall_on hs (fun f hf => copied_queue hf _ _ _)
    · cases ht
      exact hs
  | wait_on_notif_queue ptr =>
    cases ht
    exact forall_on hs (fun f hf => copied_take hf)
  | hfastrpc_file_free ptr =>
    cases ht
    intro f hf
    exact hs f (mem_remove.mp hf).1

/-- Two counts are equal when the number of shutdowns between them is a multiple of 2^64. -/
theorem ofNat_shutdowns_eq_iff (l m : List SsrNotify) :
    BitVec.ofNat 64 (shutdowns l) = BitVec.ofNat 64 (shutdowns (l ++ m)) ↔
      2 ^ 64 ∣ shutdowns m := by
  rw [← BitVec.toNat_inj, BitVec.toNat_ofNat, BitVec.toNat_ofNat, shutdowns, shutdowns, shutdowns,
    List.count_append]
  omega

variable {regs : Nat → BitVec 32} {i d : Nat} {f : Session}

/-- A session of a channel may send while it has not missed a shutdown. -/
theorem send_check_iff (hl : ∀ d, (s.channel d).Sound) (hs : Copied s f) (hfd : f.fl.domain = d) :
    hfastrpc_invoke_send_check s f = 0 ↔
      2 ^ 64 ∣ shutdowns ((s.channel d).events.drop f.copied) := by
  have hctx : s.channel_ctx f = some (s.channel d) := by
    simp [System.channel_ctx, hfd]
  have hcount := hs.count d hfd
  have hiff := ofNat_shutdowns_eq_iff ((s.channel d).events.take f.copied)
    ((s.channel d).events.drop f.copied)
  rw [List.take_append_drop, ← (hl d).count, ← hcount] at hiff
  rw [← hiff]
  simp only [hfastrpc_invoke_send_check, hctx]
  by_cases heq : f.ssrcount = (s.channel d).ssrcount
  · simp [heq]
  · simp [heq, ECONNRESET]

theorem sound_run (h : Reachable (step z) (init regs) s) :
    (∀ d, (s.channel d).Sound) ∧ ∀ f ∈ s.drivers, Copied s f := by
  apply Reachable.inv (fun s => (∀ d, (s.channel d).Sound) ∧ ∀ f ∈ s.drivers, Copied s f) _ _ h
  · rintro s a t ⟨hl, hs⟩ ht
    exact ⟨sound_step hl ht, copied_step hl hs ht⟩
  · exact ⟨fun _ => sound_init, by simp [init]⟩

/-- In every run a channel has the count and the state of the events that the SSR framework has
told it, and a session of the channel may send exactly while no shutdown (or a multiple of 2^64 of
them) is among those that came after it last copied the count. They are the events of a subsystem,
when the framework tells the channel of these and of no others. -/
theorem a_session_sends_until_its_subsystem_goes_down {acts : List Act}
    (hr : run (step z) (init regs) acts = some s) :
    (s.channel d).ssrcount = BitVec.ofNat 64 (shutdowns (s.channel d).events) ∧
      (s.channel d).subsystemstate = state_after (s.channel d).events ∧
      (∀ f ∈ s.drivers, f.fl.domain = d →
        (hfastrpc_invoke_send_check s f = 0 ↔
          2 ^ 64 ∣ shutdowns ((s.channel d).events.drop f.copied))) ∧
      ∀ i, Meets (step z) (Delivers i d) (init regs) acts →
        (s.channel d).events = s.ssr.events i := by
  obtain ⟨hl, hs⟩ := sound_run ⟨acts, hr⟩
  refine ⟨(hl d).count, (hl d).state, fun f hf hfd => send_check_iff hl (hs f hf) hfd, ?_⟩
  intro i hm
  exact run_inv_of_meets (fun s => (s.channel d).events = s.ssr.events i)
    (fun _ _ _ h hc ht => heard_step h hc ht) rfl hm hr

/-- The first subsystem is a virtual one, and the compute DSP is its client. -/
def sample : Setup where
  subs := subsystem_notif_virt.sample
  FASTRPC_DSP_SSR := 7

def quick (a : subsystem_notif_virt.Act) : Act := .ssr a (some 3) (fun _ => true)

/-- One state of the host, with its interrupt and its work. -/
def state_of_host (v : BitVec 32) : List Act :=
  [quick (.host_write 0 v), quick (.subsystem_restart_irq_handler 0), quick .work_start,
    quick .work_read, quick (.work_notify 0), quick .work_reply]

/-- A session of the compute DSP is opened. -/
def session_of (ptr : Nat) : List Act :=
  [.hfastrpc_open ptr, .get_info_domain ptr 3, .get_info_ssrcount ptr]

/-- A session is open during a restart, and another one comes behind it. -/
def restart : List Act :=
  session_of 7 ++ state_of_host 0 ++ state_of_host 1 ++ [.wait_on_notif_queue 7] ++
    state_of_host 2 ++ state_of_host 3 ++ session_of 8 ++ [.wait_on_notif_queue 7]

/-- A host that waits writes one more state. -/
theorem calm_state_of_host {s : System} (hwq : s.ssr.ssr_wq = []) (hw : s.ssr.worker = .idle)
    (hr : s.ssr.raised 0 = true ∨ s.ssr.written 0 = []) (v : BitVec 32) :
    Meets (step sample) (Calm sample 0 3) s (state_of_host v) := by
  obtain ⟨⟨regs, wq, worker, notes, written, raised⟩, channel, drivers⟩ := s
  cases hwq
  cases hw
  have hcalm : ∀ (s : System) (a : subsystem_notif_virt.Act), Handshake 0 s.ssr a →
      (∀ j code, told s.ssr a = some (j, code) → j = 0) → Calm sample 0 3 s (quick a) := by
    intro s a hh ht
    refine ⟨fun _ => rfl, ?_, fun j code hj => by simp [ht j code hj]⟩
    rintro _ _ _ ⟨⟩
    exact hh
  refine Meets.cons (hcalm _ _ ⟨fun _ _ => ⟨⟨List.not_mem_nil, id⟩, hr⟩, by simp⟩
    (by simp [told])) rfl ?_
  refine Meets.cons (hcalm _ _ ⟨by simp, fun _ => ⟨rfl, List.append_ne_nil_of_right_ne_nil _
    (List.cons_ne_nil _ _)⟩⟩ (by simp [told])) rfl ?_
  refine Meets.cons (hcalm _ _ (by simp [Handshake]) (by simp [told])) rfl ?_
  refine Meets.cons (hcalm _ _ (by simp [Handshake]) (by simp [told])) rfl ?_
  refine Meets.cons (hcalm _ _ (by simp [Handshake]) ?_) rfl ?_
  · rintro j code ⟨⟩
    rfl
  · exact Meets.cons (hcalm _ _ (by simp [Handshake]) (by simp [told])) rfl trivial

theorem calm_session_of (ptr : Nat) (s : System) :
    Meets (step sample) (Calm sample 0 3) s (session_of ptr) := by
  apply meets_of_forall
  intro act hact s
  simp only [session_of, List.mem_cons, List.not_mem_nil, or_false] at hact
  rcases hact with rfl | rfl | rfl <;> exact ⟨trivial, by simp, trivial⟩

theorem restart_calm : Meets (step sample) (Calm sample 0 3) (init (fun _ => 0)) restart := by
  have hread : ∀ u : System, Meets (step sample) (Calm sample 0 3) u [.wait_on_notif_queue 7] :=
    fun _ => ⟨⟨trivial, by simp, trivial⟩, fun _ _ => trivial⟩
  refine Meets.append ?_ rfl (hread _)
  refine Meets.append ?_ rfl (calm_session_of 8 _)
  refine Meets.append ?_ rfl (calm_state_of_host rfl rfl (Or.inl rfl) 3)
  refine Meets.append ?_ rfl (calm_state_of_host rfl rfl (Or.inl rfl) 2)
  refine Meets.append ?_ rfl (hread _)
  refine Meets.append ?_ rfl (calm_state_of_host rfl rfl (Or.inl rfl) 1)
  refine Meets.append (calm_session_of 7 _) rfl ?_
  exact calm_state_of_host rfl rfl (Or.inr rfl) 0

/-- The session that was open during the restart has missed its shutdown. -/
theorem a_session_behind_a_shutdown_is_refused :
    ∃ s f, run (step sample) (init (fun _ => 0)) restart = some s ∧ f ∈ s.drivers ∧ f.fl.ptr = 7 ∧
      (hfastrpc_invoke_send_check s f = 0 ↔
        2 ^ 64 ∣ shutdowns ((s.channel 3).events.drop f.copied)) ∧
      (s.channel 3).events = s.ssr.events 0 := by
  obtain ⟨s, hs⟩ : ∃ s, run (step sample) (init (fun _ => 0)) restart = some s := ⟨_, rfl⟩
  obtain ⟨f, hf, hptr, hdom⟩ : ∃ f ∈ s.drivers, f.fl.ptr = 7 ∧ f.fl.domain = (3 : Nat) := by
    cases hs
    exact ⟨_, List.mem_cons_of_mem _ List.mem_cons_self, rfl, rfl⟩
  obtain ⟨_, _, hsend, hheard⟩ := a_session_sends_until_its_subsystem_goes_down (d := 3) hs
  exact ⟨s, f, hs, hf, hptr, hsend f hf hdom,
    hheard 0 (restart_calm.mono (fun _ _ h => h.delivers))⟩

/-! ## The announcements of a restart -/

/-- The announcements of a restart that a session has read or has still in its queue. -/
def Session.announced (z : Setup) (f : Session) : List SmqNotifRsp :=
  (f.read ++ f.fl.notif_queue).filter (fun n => n.status = z.FASTRPC_DSP_SSR)

/-- The restarts among the events. -/
def restarts (events : List SsrNotify) : Nat := events.count .QCOM_SSR_BEFORE_POWERUP

/-- A session has one announcement for each restart of its channel since it was bound to it. -/
structure Announced (z : Setup) (s : System) (f : Session) : Prop where
  unbound : f.fl.domain = -1 → f.announced z = []
  le : ∀ d : Nat, f.fl.domain = d → f.bound ≤ (s.channel d).events.length
  count : ∀ d : Nat, f.fl.domain = d →
    (f.announced z).length = restarts ((s.channel d).events.drop f.bound)
  mine : ∀ n ∈ f.announced z, n.domain = f.fl.domain

theorem Announced.congr {f g : Session} (h : Announced z s f) (hd : g.fl.domain = f.fl.domain)
    (hb : g.bound = f.bound) (ha : g.announced z = f.announced z) : Announced z s g := by
  obtain ⟨hu, hl, hn, hm⟩ := h
  constructor
  · rwa [hd, ha]
  · rwa [hd, hb]
  · rwa [hd, hb, ha]
  · rwa [hd, ha]

/-- A channel that the step does not tell. -/
theorem Announced.same {f : Session} (h : Announced z s f)
    (hc : ∀ d : Nat, f.fl.domain = d → t.channel d = s.channel d) : Announced z t f := by
  obtain ⟨hu, hl, hn, hm⟩ := h
  refine ⟨hu, ?_, ?_, hm⟩
  · intro d hd
    rw [hc d hd]
    exact hl d hd
  · intro d hd
    rw [hc d hd]
    exact hn d hd

theorem announced_queue (f : Session) (d : Int) (status : BitVec 32) :
    (f.queue_pd_status d status true).announced z =
      f.announced z ++
        (if status = z.FASTRPC_DSP_SSR then [⟨status, d, f.fl.sessionid⟩] else []) := by
  unfold Session.announced Session.queue_pd_status fastrpc_queue_pd_status
  by_cases h : status = z.FASTRPC_DSP_SSR <;> simp [h]

theorem announced_take (f : Session) : f.take.announced z = f.announced z := by
  unfold Session.take Session.announced
  split
  · rfl
  · rename_i n rest hq
    simp [hq]

/-- The callback is told of an event for the channel of the session. -/
theorem Announced.told {f : Session} {d : Nat} {code : SsrNotify} {ok : Nat → Bool}
    (h : Announced z s f) (hok : ∀ p, ok p = true) :
    Announced z (fastrpc_restart_notifier_cb z s d code ok)
      (if code = .QCOM_SSR_BEFORE_POWERUP ∧ f.fl.domain = (d : Int) then
        f.queue_pd_status d z.FASTRPC_DSP_SSR (ok f.fl.ptr)
      else f) := by
  by_cases hd : f.fl.domain = (d : Int)
  · have hlen := h.le d hd
    have hcount := h.count d hd
    have hne : f.fl.domain ≠ -1 := by omega
    -- what the session has behind the event
    have hsnoc : restarts ((((s.channel d).events) ++ [code]).drop f.bound) =
        restarts ((s.channel d).events.drop f.bound) +
          (if code = .QCOM_SSR_BEFORE_POWERUP then 1 else 0) := by
      rw [List.drop_append_of_le_length hlen, restarts, List.count_append, ← restarts,
        List.count_singleton]
      simp
    by_cases hcode : code = .QCOM_SSR_BEFORE_POWERUP
    · rw [if_pos ⟨hcode, hd⟩, hok]
      have han := announced_queue (z := z) f d z.FASTRPC_DSP_SSR
      rw [if_pos rfl] at han
      refine ⟨?_, ?_, ?_, ?_⟩
      · rw [domain_queue]
        exact fun hneg => absurd hneg hne
      · intro e he
        rw [domain_queue, hd] at he
        cases Int.ofNat.inj he
        simp only [fastrpc_restart_notifier_cb, Function.update_self, events_told,
          List.length_append]
        exact Nat.le_add_right_of_le hlen
      · intro e he
        rw [domain_queue, hd] at he
        cases Int.ofNat.inj he
        rw [han, List.length_append, hcount]
        simp only [fastrpc_restart_notifier_cb, Function.update_self, events_told]
        show _ = restarts ((((s.channel d).events) ++ [code]).drop f.bound)
        rw [hsnoc, if_pos hcode]
        rfl
      · intro n hn
        rw [han] at hn
        rw [domain_queue]
        rcases List.mem_append.mp hn with hn | hn
        · exact h.mine n hn
        · rw [List.mem_singleton.mp hn]
          exact hd.symm
    · rw [if_neg (fun hc => hcode hc.1)]
      refine ⟨h.unbound, ?_, ?_, h.mine⟩
      · intro e he
        rw [hd] at he
        cases Int.ofNat.inj he
        simp only [fastrpc_restart_notifier_cb, Function.update_self, events_told,
          List.length_append]
        exact Nat.le_add_right_of_le hlen
      · intro e he
        rw [hd] at he
        cases Int.ofNat.inj he
        simp only [fastrpc_restart_notifier_cb, Function.update_self, events_told]
        rw [hsnoc, if_neg hcode, hcount, Nat.add_zero]
  · rw [if_neg (fun hc => hd hc.2)]
    apply h.same
    intro e he
    have hed : e ≠ d := by
      rintro rfl
      exact hd he
    simp [fastrpc_restart_notifier_cb, Function.update_of_ne hed]

theorem announced_step {act : Act} (hc : Undisturbed z act)
    (hs : ∀ f ∈ s.drivers, Announced z s f) (ht : step z s act = some t) :
    ∀ f ∈ t.drivers, Announced z t f := by
  have hcb : ∀ (v : subsystem_notif_virt.State) (d : Nat) (code : SsrNotify) (ok : Nat → Bool),
      (∀ p, ok p = true) →
      ∀ f ∈ (fastrpc_restart_notifier_cb z { s with ssr := v } d code ok).drivers,
        Announced z (fastrpc_restart_notifier_cb z { s with ssr := v } d code ok) f := by
    intro v d code ok hok f hf
    obtain ⟨e, he, rfl⟩ := mem_notifier_cb hf
    exact Announced.told ((hs e he).same (fun _ _ => rfl)) hok
  cases hact : act.framework with
  | true =>
    cases act with
    | ssr a called ok =>
      obtain ⟨v, _, ⟨rfl, _⟩ | ⟨i, code, d, _, _, rfl⟩⟩ := ssr_cases ht
      · exact fun f hf => (hs f hf).same (fun _ _ => rfl)
      · exact hcb v d code ok hc
    | fastrpc_restart_notifier_cb d code ok =>
      cases ht
      exact hcb s.ssr d code ok hc
    | _ => cases hact
  | false =>
  have hchan := (channel_step ht hact).2
  suffices h : ∀ f ∈ t.drivers, Announced z s f from
    fun f hf => (h f hf).same (fun d _ => congrFun hchan d)
  cases act with
  | ssr a called ok => cases hact
  | fastrpc_restart_notifier_cb d code ok => cases hact
  | hfastrpc_open ptr =>
    simp only [step] at ht
    split at ht
    · cases ht
    · cases ht
      intro f hf
      rcases List.mem_cons.mp hf with rfl | hf
      · constructor <;>
          simp [hfastrpc_file_alloc, dsp_signals.hfastrpc_file_alloc, Session.announced]
      · exact hs f hf
  | set_session_info ptr sessionid =>
    cases ht
    exact forall_on hs (fun f hf => hf.congr rfl rfl rfl)
  | get_info_domain ptr domain =>
    cases ht
    apply forall_on hs
    intro f hf
    split
    · rename_i hneg
      generalize hg : ({ f with fl := { f.fl with domain := domain }
                                bound := (s.channel domain).events.length } : Session) = g
      have hnil : g.announced z = [] := by
        rw [← hg]
        exact hf.unbound hneg
      constructor
      · exact fun _ => hnil
      · intro d hd
        rw [← hg] at hd ⊢
        cases Int.ofNat.inj hd
        exact Nat.le_refl _
      · intro d hd
        rw [hnil]
        rw [← hg] at hd ⊢
        cases Int.ofNat.inj hd
        simp [restarts]
      · simp [hnil]
    · exact hf
  | get_info_ssrcount ptr =>
    cases ht
    apply forall_on hs
    intro f hf
    cases s.channel_ctx f with
    | none => exact hf
    | some c => exact hf.congr rfl rfl rfl
  | hfastrpc_channel_open ptr =>
    cases ht
    apply forall_on hs
    intro f hf
    cases s.channel_ctx f with
    | none => exact hf
    | some c =>
      simp only [Option.elim_some]
      split
      · exact hf.congr rfl rfl rfl
      · exact hf
  | virt_fastrpc_open ptr upid =>
    cases ht
    exact forall_on hs (fun f hf => hf.congr rfl rfl rfl)
  | fastrpc_notif_find_process domain notif ok =>
    simp only [step] at ht
    split at ht
    · cases ht
      apply forall_on hs
      intro f hf
      apply hf.congr (domain_queue f _ _ _) rfl
      cases ok with
      | false => rfl
      | true => rw [announced_queue, if_neg hc, List.append_nil]
    · cases ht
      exact hs
  | wait_on_notif_queue ptr =>
    cases ht
    apply forall_on hs
    intro f hf
    apply hf.congr (domain_take f) _ (announced_take f)
    unfold Session.take
    split <;> rfl
  | hfastrpc_file_free ptr =>
    cases ht
    intro f hf
    exact hs f (mem_remove.mp hf).1

theorem turns_step {e : SubsystemDescriptor} {act : Act} (h : Turns s.ssr i e)
    (hi : z.subs.typed i .VIRTUAL = some e)
    (hc : ∀ a called ok, act = .ssr a called ok → Handshake i s.ssr a)
    (ht : step z s act = some t) : Turns t.ssr i e := by
  cases hact : act.framework with
  | false =>
    rw [(channel_step ht hact).1]
    exact h
  | true =>
    cases act with
    | ssr a called ok =>
      obtain ⟨v, hv, hcases⟩ := ssr_cases ht
      have hv' : Turns v i e := h.step hi (hc a called ok rfl) hv
      rcases hcases with ⟨rfl, _⟩ | ⟨_, _, _, _, _, rfl⟩
      · exact hv'
      · exact hv'
    | fastrpc_restart_notifier_cb d code ok =>
      cases ht
      exact h
    | _ => cases hact

/-- When a host that waits for the work has restarted a subsystem, the SSR framework has told the
channel of it, and the last of the states has gone through, the channel has the state that the host
wrote, each session of the channel has been told once of each restart since it was bound, and only
the sessions that have copied the count since the last shutdown may send. -/
theorem a_restart_by_the_host_reaches_every_session {e : SubsystemDescriptor}
    (hi : z.subs.typed i .VIRTUAL = some e)
    (h : ReachableUnder (step z) (Calm z i d) (init regs) s) (hr : s.ssr.raised i = true)
    (hq : Quiet s.ssr i) :
    (s.channel d).subsystemstate = state_after ((s.ssr.written i).map ssr_type) ∧
      ∀ f ∈ s.drivers, f.fl.domain = d →
        (f.announced z).length = restarts (((s.ssr.written i).map ssr_type).drop f.bound) ∧
        (∀ n ∈ f.announced z, n.domain = d) ∧
        (hfastrpc_invoke_send_check s f = 0 ↔
          2 ^ 64 ∣ shutdowns (((s.ssr.written i).map ssr_type).drop f.copied)) := by
  obtain ⟨hl, hs⟩ : (∀ d, (s.channel d).Sound) ∧ ∀ f ∈ s.drivers, Copied s f := by
    obtain ⟨as, _, hrun⟩ := h
    exact sound_run ⟨as, hrun⟩
  have hI : Turns s.ssr i e ∧ (∀ f ∈ s.drivers, Announced z s f) ∧
      (s.channel d).events = s.ssr.events i := by
    apply ReachableUnder.inv (fun s => Turns s.ssr i e ∧ (∀ f ∈ s.drivers, Announced z s f) ∧
      (s.channel d).events = s.ssr.events i) _ _ h
    · rintro s a t ⟨hturns, hs, hev⟩ hcalm ht
      exact ⟨turns_step hturns hi hcalm.handshake ht, announced_step hcalm.undisturbed hs ht,
        heard_step hev hcalm.delivers ht⟩
    · exact ⟨subsystem_notif_virt.turns_init regs, by simp [init], rfl⟩
  obtain ⟨hturns, han, hev⟩ := hI
  have hheard : s.ssr.events i = (s.ssr.written i).map ssr_type := hturns.heard hr hq
  rw [← hheard, ← hev]
  refine ⟨(hl d).state, ?_⟩
  intro f hf hfd
  refine ⟨(han f hf).count d hfd, ?_, send_check_iff hl (hs f hf) hfd⟩
  intro n hn
  rw [(han f hf).mine n hn, hfd]

theorem restart_of_the_host_is_announced_once :
    ∃ s f, run (step sample) (init (fun _ => 0)) restart = some s ∧ f ∈ s.drivers ∧ f.fl.ptr = 7 ∧
      (f.announced sample).length = restarts (((s.ssr.written 0).map ssr_type).drop f.bound) := by
  obtain ⟨s, hs⟩ : ∃ s, run (step sample) (init (fun _ => 0)) restart = some s := ⟨_, rfl⟩
  obtain ⟨f, hf, hptr, hdom⟩ : ∃ f ∈ s.drivers, f.fl.ptr = 7 ∧ f.fl.domain = (3 : Nat) := by
    cases hs
    exact ⟨_, List.mem_cons_of_mem _ List.mem_cons_self, rfl, rfl⟩
  have h := a_restart_by_the_host_reaches_every_session (z := sample) (i := 0) (d := 3)
    (e := ⟨0, .VIRTUAL⟩) rfl ⟨restart, restart_calm, hs⟩
  refine ⟨s, f, hs, hf, hptr, ((h ?_ ?_).2 f hf hdom).1⟩
  · cases hs
    rfl
  · cases hs
    exact ⟨List.not_mem_nil, id⟩

end

end virtual_fastrpc.restart_notifier
