-- The channel table of the hybrid driver and the domain of a session, which is
-- -1 until GETINFO or the session info has bound it. Some handlers check the
-- domain before they use it as an index, others rely on the requests before
-- them, and one does neither.
import PlatformKernel.HybridHandlers

namespace virtual_fastrpc.channel_access

open virtual_fastrpc.sessions virtual_fastrpc.hybrid_handlers keyed step_runs

/-! ## What the handlers access -/

-- A request here is one that got its copy from the user: no handler is called before that.

variable (c : Config) (s : Apps) (f : File)

def hfastrpc_get_info_events (domain : Nat) (e : SetupEnv) : List Event :=
  if f.set_session_info then []
  else if c.num_channels ≤ domain then []
  else
    let r := set_process_info c s { f with set_session_info := true } e
    match r.err with
    | some _ => []
    | none => if r.file.domain = -1 then [.channel domain] else []

def hfastrpc_set_session_info_events (i : SessInfo) (e : SetupEnv) : List Event :=
  let f := { f with
    untrusted_process := f.untrusted_process || decide (e.tgid ≠ f.tgid_open) }
  if sess_info_bad c f i then []
  else hfastrpc_get_info_events c s
    { f with sessionid := i.session_id, multi_session_support := true } i.domain_id e

def hfastrpc_channel_open_events (e : InitEnv) : List Event :=
  if OutOfRange c f.domain then []
  else if e.interrupt_ok = false ∨ e.transport_ok = false then []
  else [.channel f.domain]

def hfastrpc_init_process_events (u : InitAttrs) (e : InitEnv) : List Event :=
  if OutOfRange c f.domain then []
  else
    .channel f.domain ::
      if pd_refused c (s.channel f.domain.toNat) f u.attrs then []
      else hfastrpc_channel_open_events c f e

def vfastrpc_init_ioctl_events (u : InitAttrs) (e : InitEnv) : List Event :=
  if ¬ (0 ≤ u.filelen ∧ u.filelen < INIT_FILELEN_MAX) then []
  else if ¬ (0 ≤ u.memlen ∧ u.memlen < INIT_MEMLEN_MAX) then []
  else hfastrpc_init_process_events c s f u e

/-- A reply of the backend is followed by the write of `unsigned_support`. -/
def hfastrpc_get_info_from_kernel_events (domain attribute_ID : Nat) (a : CapAnswer) :
    List Event :=
  if c.num_channels ≤ domain then []
  else if c.FASTRPC_MAX_ATTRIBUTES ≤ attribute_ID then []
  else
    .channel domain ::
      if c.FASTRPC_MAX_DSP_ATTRIBUTES ≤ attribute_ID then []
      else if (s.channel domain).is_cached = false then
        match a with
        | .reply result _ => if result ≠ 0 then [] else [.channel domain]
        | _ => []
      else []

/-- The requests that set a session up. -/
def session_events : Req → List Event
  | .getinfo copy_in domain e _ =>
    if copy_in = false then [] else hfastrpc_get_info_events c s f domain e
  | .sess_info size_ok copy_in i e _ =>
    if size_ok = false ∨ copy_in = false then []
    else hfastrpc_set_session_info_events c s f i e
  | .mode_session => []
  | .init copy_in u e => if copy_in = false then [] else vfastrpc_init_ioctl_events c s f u e
  | .get_dsp_info copy_in domain attribute_ID a _ =>
    if copy_in = false ∨ c.num_channels ≤ domain then []
    else hfastrpc_get_info_from_kernel_events c s domain attribute_ID a

/-- The requests that read no entry of the channel table. -/
inductive NoChannel
  | control | setmode | status_notif
  | dspsignal_wait | dspsignal_create | dspsignal_destroy | dspsignal_cancel_wait
  deriving DecidableEq, Repr

/-- The other requests of the hybrid driver. -/
inductive HybridReq
  | invoke (e : InvokeEnv)
  | invoke2_async (size_ok copy_in : Bool) (e : InvokeEnv)
  | invoke2_async_response
  /-- With the persistent headers of the session: whether they are asked for and not there yet,
  and whether their buffer can be made. -/
  | kernel_optimizations (needed buf_alloc : Bool) (e : InvokeEnv)
  | mem (q : MemReq)
  | dspsignal_signal (signal_id : Nat)
  | no_channel (q : NoChannel)
  deriving DecidableEq, Repr

/-- The part of hfastrpc_invoke2 that the two asynchronous requests share. -/
def invoke2_async_check (rest : List Event) : List Event :=
  if f.domain = c.CDSP_DOMAIN_ID ∨ f.domain = c.CDSP1_DOMAIN_ID then
    .channel f.domain ::
      if (s.channel f.domain.toNat).dsp_attributes c.ASYNC_FASTRPC_CAP = 1 then rest else []
  else []

def hfastrpc_create_persistent_headers (needed buf_alloc : Bool) (e : InvokeEnv) : List Event :=
  if needed = false ∨ buf_alloc = false then []
  else (hfastrpc_mem_map_to_dsp c s f e).events

/-- The domain is not checked here. -/
def hfastrpc_dspsignal_signal (DSPSIGNAL_NUM_SIGNALS signal_id : Nat) : List Event :=
  if signal_id < DSPSIGNAL_NUM_SIGNALS then [.channel f.domain] else []

def request_events (DSPSIGNAL_NUM_SIGNALS : Nat) : HybridReq → List Event
  | .invoke e => (hfastrpc_internal_invoke c s f false e).events
  | .invoke2_async size_ok copy_in e =>
    invoke2_async_check c s f (if size_ok = false ∨ copy_in = false then []
      else (hfastrpc_internal_invoke c s f false e).events)
  | .invoke2_async_response => invoke2_async_check c s f []
  | .kernel_optimizations needed buf_alloc e =>
    hfastrpc_create_persistent_headers c s f needed buf_alloc e
  | .mem q => mem_request c s f q
  | .dspsignal_signal signal_id => hfastrpc_dspsignal_signal f DSPSIGNAL_NUM_SIGNALS signal_id
  | .no_channel _ => []

/-! ## The machine -/

/-- The driver, and what its handlers have done so far. -/
structure Machine where
  apps : Apps
  events : List Event

inductive HybridAct
  | session (a : Act)
  | ioctl (v : Nat) (q : HybridReq)

/-- What a step of the sessions accesses. -/
def act_events (s : Apps) : Act → List Event
  | .ioctl v q => match s.file v with
    | some f => session_events c s f q
    | none => []
  | _ => []

def hybrid_step (DSPSIGNAL_NUM_SIGNALS : Nat) (m : Machine) : HybridAct → Option Machine
  | .session a => (step c m.apps a).map fun t => ⟨t, m.events ++ act_events c m.apps a⟩
  | .ioctl v q => (m.apps.file v).map fun f =>
    ⟨m.apps, m.events ++ request_events c m.apps f DSPSIGNAL_NUM_SIGNALS q⟩

def start : Machine := ⟨init c, []⟩

/-! ## The law and its condition -/

/-- Every access to the channel table is in range. -/
def InRange (es : List Event) : Prop :=
  ∀ d : Int, .channel d ∈ es → 0 ≤ d ∧ d < c.num_channels

/-- No signal with a good number is sent on a session without a domain. -/
def SignalsBound (DSPSIGNAL_NUM_SIGNALS : Nat) (m : Machine) : HybridAct → Prop
  | .ioctl v (.dspsignal_signal signal_id) => ∀ f, m.apps.file v = some f →
    signal_id < DSPSIGNAL_NUM_SIGNALS → f.domain ≠ -1
  | _ => True

section proof

variable {c} {s} {f}

theorem not_outOfRange {d : Int} : ¬ OutOfRange c d ↔ 0 ≤ d ∧ d < c.num_channels := by
  unfold OutOfRange
  omega

@[simp] theorem inRange_nil : InRange c [] := fun _ h => absurd h List.not_mem_nil

@[simp] theorem inRange_append {as bs : List Event} :
    InRange c (as ++ bs) ↔ InRange c as ∧ InRange c bs := by
  unfold InRange
  constructor
  · intro h
    exact ⟨fun d hd => h d (List.mem_append_left _ hd),
      fun d hd => h d (List.mem_append_right _ hd)⟩
  · rintro ⟨ha, hb⟩ d hd
    rcases List.mem_append.mp hd with hd | hd
    · exact ha d hd
    · exact hb d hd

@[simp] theorem inRange_channel {d : Int} {es : List Event} :
    InRange c (.channel d :: es) ↔ ¬ OutOfRange c d ∧ InRange c es := by
  rw [not_outOfRange]
  unfold InRange
  constructor
  · intro h
    exact ⟨h d List.mem_cons_self, fun d' hd => h d' (List.mem_cons_of_mem _ hd)⟩
  · rintro ⟨h, hs⟩ d' hd
    rcases List.mem_cons.mp hd with he | hd
    · cases he
      exact h
    · exact hs d' hd

@[simp] theorem inRange_mutex {o : locks.Op Mutex} {es : List Event} :
    InRange c (.mutex o :: es) ↔ InRange c es := by
  unfold InRange
  simp

theorem inRange_plain {es : List Event} (h : Plain c es) : InRange c es := by
  induction h with
  | nil => exact inRange_nil
  | channel h => simp [h]
  | map_section h =>
    unfold map_section
    simp only [inRange_mutex, inRange_append, inRange_nil, and_true]
    intro d hd
    obtain ⟨d', he, hd'⟩ := h _ hd
    cases he
    exact not_outOfRange.mp hd'
  | append _ _ ha hb => exact inRange_append.mpr ⟨ha, hb⟩

/-! ## The requests -/

theorem get_info_inRange (domain : Nat) (e : SetupEnv) :
    InRange c (hfastrpc_get_info_events c s f domain e) := by
  unfold hfastrpc_get_info_events
  split
  · exact inRange_nil
  · split
    · exact inRange_nil
    · rename_i hdom
      dsimp only
      split
      · exact inRange_nil
      · split
        · have : ¬ OutOfRange c domain := not_outOfRange.mpr ⟨by omega, by omega⟩
          simp [this]
        · exact inRange_nil

theorem init_inRange (u : InitAttrs) (e : InitEnv) :
    InRange c (vfastrpc_init_ioctl_events c s f u e) := by
  unfold vfastrpc_init_ioctl_events hfastrpc_init_process_events
  split
  · exact inRange_nil
  · split
    · exact inRange_nil
    · split
      · exact inRange_nil
      · rename_i hd
        rw [inRange_channel]
        refine ⟨hd, ?_⟩
        split
        · exact inRange_nil
        · unfold hfastrpc_channel_open_events
          split
          · exact inRange_nil
          · split
            · exact inRange_nil
            · simp [hd]

theorem get_info_from_kernel_inRange (domain attribute_ID : Nat) (a : CapAnswer) :
    InRange c (hfastrpc_get_info_from_kernel_events c s domain attribute_ID a) := by
  unfold hfastrpc_get_info_from_kernel_events
  split
  · exact inRange_nil
  · rename_i hdom
    have hd : ¬ OutOfRange c domain := not_outOfRange.mpr ⟨by omega, by omega⟩
    split
    · exact inRange_nil
    · rw [inRange_channel]
      refine ⟨hd, ?_⟩
      split
      · exact inRange_nil
      · split
        · cases a with
          | no_memory => exact inRange_nil
          | send_error => exact inRange_nil
          | reply result caps =>
            dsimp only
            split
            · exact inRange_nil
            · simp [hd]
        · exact inRange_nil

/-- The requests that set a session up check the index themselves. -/
theorem session_inRange (q : Req) : InRange c (session_events c s f q) := by
  cases q with
  | getinfo copy_in domain e copy_out =>
    simp only [session_events]
    split
    · exact inRange_nil
    · exact get_info_inRange domain e
  | sess_info size_ok copy_in i e copy_out =>
    simp only [session_events]
    split
    · exact inRange_nil
    · unfold hfastrpc_set_session_info_events
      dsimp only
      split
      · exact inRange_nil
      · exact get_info_inRange _ e
  | mode_session => exact inRange_nil
  | init copy_in u e =>
    simp only [session_events]
    split
    · exact inRange_nil
    · exact init_inRange u e
  | get_dsp_info copy_in domain attribute_ID a copy_out =>
    simp only [session_events]
    split
    · exact inRange_nil
    · exact get_info_from_kernel_inRange domain attribute_ID a

/-- A session without a domain, or with one that is in the table. -/
def Bounded (c : Config) (f : File) : Prop := f.domain = -1 ∨ ¬ OutOfRange c f.domain

theorem invoke2_async_check_inRange (hb : Bounded c f) {rest : List Event}
    (hr : InRange c rest) : InRange c (invoke2_async_check c s f rest) := by
  unfold invoke2_async_check
  split
  · rename_i hdom
    rw [inRange_channel]
    refine ⟨?_, ?_⟩
    · rcases hb with hb | hb
      · rw [hb] at hdom
        omega
      · exact hb
    · split
      · exact hr
      · exact inRange_nil
  · exact inRange_nil

/-- The others check it or have a domain, but for the signal. -/
theorem request_inRange (hb : Bounded c f) {n : Nat} (q : HybridReq)
    (hs : ∀ signal_id, q = .dspsignal_signal signal_id → signal_id < n → f.domain ≠ -1) :
    InRange c (request_events c s f n q) := by
  have hinv := fun kernel e => inRange_plain (@internal_invoke_plain c s f kernel e)
  cases q with
  | invoke e => exact hinv false e
  | invoke2_async size_ok copy_in e =>
    apply invoke2_async_check_inRange hb
    split
    · exact inRange_nil
    · exact hinv false e
  | invoke2_async_response => exact invoke2_async_check_inRange hb inRange_nil
  | kernel_optimizations needed buf_alloc e =>
    simp only [request_events, hfastrpc_create_persistent_headers]
    split
    · exact inRange_nil
    · exact hinv true e
  | mem q =>
    simp only [request_events]
    rcases @mem_request_cases c s f q with ⟨_, ht⟩ | ⟨_, ht | ⟨body, hbody, ht⟩⟩
    · simp [ht]
    · simp [ht]
    · simp [ht, inRange_plain hbody]
  | dspsignal_signal signal_id =>
    simp only [request_events, hfastrpc_dspsignal_signal]
    split
    · rename_i hid
      have hd := hb.resolve_left (hs signal_id rfl hid)
      simp [hd]
    · exact inRange_nil
  | no_channel q => exact inRange_nil

/-! ## The steps -/

/-- A request keeps a domain that is in the table. -/
theorem changed_bounded {g : File} {q : Req} (h : Bounded c f) (hch : Changed c s f q g) :
    Bounded c g := by
  cases hch with
  | setup hs =>
    rcases hs.bound with ⟨hd, _⟩ | ⟨_, _, d, hlt, hd, _⟩
    · unfold Bounded
      rw [hd]
      exact h
    · right
      rw [hd, not_outOfRange]
      omega
  | refused _ => exact h
  | not_accepted hm =>
    obtain ⟨n, rfl⟩ := hm.file
    exact h
  | accepted hm _ hg' =>
    obtain ⟨n, rfl⟩ := hm.file
    subst hg'
    split <;> exact h

structure Inv (c : Config) (m : Machine) : Prop where
  bounded : ∀ f ∈ m.apps.drivers, Bounded c f
  inRange : InRange c m.events

theorem step_inv {n : Nat} (m : Machine) (a : HybridAct) (m' : Machine) (h : Inv c m)
    (hs : SignalsBound n m a) (hm : hybrid_step c n m a = some m') : Inv c m' := by
  cases a with
  | session a =>
    obtain ⟨t, ht, rfl⟩ := Option.map_eq_some_iff.mp hm
    have hb := step_each (Bounded c) (fun _ _ _ => Or.inl rfl)
      (fun _ _ _ _ _ _ hf hch => changed_bounded hf hch) h.bounded ht
    refine ⟨hb, inRange_append.mpr ⟨h.inRange, ?_⟩⟩
    cases a with
    | ioctl v q =>
      simp only [act_events]
      split
      · exact session_inRange q
      · exact inRange_nil
    | open_node v dev_minor tgid => exact inRange_nil
    | release v => exact inRange_nil
    | ssr_shutdown d => exact inRange_nil
    | ssr_powerup d => exact inRange_nil
  | ioctl v q =>
    obtain ⟨f, hf, rfl⟩ := Option.map_eq_some_iff.mp hm
    refine ⟨h.bounded, inRange_append.mpr ⟨h.inRange, ?_⟩⟩
    apply request_inRange (h.bounded f (mem_of_lookup hf))
    rintro signal_id rfl hid
    exact hs f hf hid

end proof

/-! ## The law -/

/-- In every run of the hybrid driver in which no signal is sent on a session without a domain,
every access of its handlers to the channel table is in range. -/
theorem channel_accesses_are_in_range {c : Config} {n : Nat} {m : Machine}
    (hr : ReachableUnder (hybrid_step c n) (SignalsBound n) (start c) m) :
    InRange c m.events := by
  have hinit : Inv c (start c) := ⟨fun _ hf => absurd hf List.not_mem_nil, inRange_nil⟩
  exact (hr.inv (Inv c) step_inv hinit).inRange

/-- A session is bound, and then sends a signal. -/
theorem a_signal_of_a_bound_session :
    ∃ m, run (hybrid_step (sampleConfig .hybrid) 1024) (start (sampleConfig .hybrid))
        [.session (.open_node 1 .MINOR_NUM_DEV 50),
          .session (.ioctl 1 (.getinfo true 3 ⟨50, true, true⟩ true)),
          .ioctl 1 (.dspsignal_signal 5)] = some m ∧
      m.events = [.channel 3, .channel 3] ∧ InRange (sampleConfig .hybrid) m.events := by
  refine ⟨_, rfl, by decide, ?_⟩
  apply channel_accesses_are_in_range (c := sampleConfig .hybrid) (n := 1024)
  refine ⟨[.session (.open_node 1 .MINOR_NUM_DEV 50),
    .session (.ioctl 1 (.getinfo true 3 ⟨50, true, true⟩ true)),
    .ioctl 1 (.dspsignal_signal 5)], ?_, rfl⟩
  refine .cons trivial rfl ?_
  refine .cons trivial rfl ?_
  refine ⟨?_, fun _ _ => trivial⟩
  rintro f ⟨⟩ _
  decide

/-- A new session sends a signal: the index is -1. -/
theorem a_signal_of_a_new_session :
    ∃ m, run (hybrid_step (sampleConfig .hybrid) 1024) (start (sampleConfig .hybrid))
        [.session (.open_node 1 .MINOR_NUM_DEV 50), .ioctl 1 (.dspsignal_signal 5)] = some m ∧
      m.events = [.channel (-1)] ∧ ¬ InRange (sampleConfig .hybrid) m.events := by
  refine ⟨_, rfl, by decide, ?_⟩
  intro h
  exact absurd (h (-1) (by decide)).1 (by decide)

end virtual_fastrpc.channel_access
