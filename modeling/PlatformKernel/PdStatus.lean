-- The status notifications of the DSP: how hybrid_fastrpc_vdev.c finds the
-- session of a notification and queues it there, beside the search that it
-- makes for a signal.
import PlatformKernel.DspSignals

namespace virtual_fastrpc.pd_status

open keyed virtual_fastrpc.dsp_signals

/-! ## The notifications of a session -/

/-- `struct smq_notif_rspv3` as far as the driver reads it after the tests of its kind. -/
structure SmqNotifRspv3 where
  pid : BitVec 32
  status : BitVec 32
  deriving DecidableEq, Repr

/-- `struct smq_notif_rsp`. -/
structure SmqNotifRsp where
  status : BitVec 32
  domain : Int
  session : Int
  deriving DecidableEq, Repr

/-- A session, with its signals and its notifications. -/
structure File extends dsp_signals.File where
  sessionid : Int
  notif_queue : List SmqNotifRsp
  notif_queue_count : Int

/-- `vfa`: the sessions of the driver. -/
structure Apps where
  drivers : List File

/-- What the signals see of the driver. -/
def Apps.signals (s : Apps) : dsp_signals.Apps := ⟨s.drivers.map File.toFile⟩

/-- The allocation of the entry can fail, and the notification is lost then. -/
def fastrpc_queue_pd_status (fl : File) (domain : Int) (status : BitVec 32) (sessionid : Int)
    (alloc_ok : Bool) : File :=
  if alloc_ok = false then fl
  else
    { fl with
      notif_queue := fl.notif_queue ++ [⟨status, domain, sessionid⟩]
      notif_queue_count := fl.notif_queue_count + 1 }

/-- The session that fastrpc_notif_find_process finds. -/
def Apps.notified (s : Apps) (pid : BitVec 32) : Option File :=
  s.drivers.find? (fun f => f.upid == pid)

def fastrpc_notif_find_process (s : Apps) (domain : Int) (notif : SmqNotifRspv3)
    (alloc_ok : Bool) : Apps :=
  match s.notified notif.pid with
  | none => s
  | some fl =>
    ⟨update (fun f => f.ptr) s.drivers fl.ptr
      (fun f => fastrpc_queue_pd_status f domain notif.status f.sessionid alloc_ok)⟩

/-- The session that a signal from `domain` for the process `pid` is delivered to. -/
def Apps.signaled (s : Apps) (pid : BitVec 32) (domain : Int) : Option dsp_signals.File :=
  s.signals.receiver pid domain

/-! ## What a notification changes -/

/-- A notification leaves the signals of every session. -/
theorem signals_notif_find_process (s : Apps) (domain : Int) (notif : SmqNotifRspv3)
    (alloc_ok : Bool) :
    (fastrpc_notif_find_process s domain notif alloc_ok).signals = s.signals := by
  unfold fastrpc_notif_find_process
  split
  · rfl
  · simp only [Apps.signals, update, List.map_map]
    congr 1
    apply List.map_congr_left
    intro f _
    simp only [Function.comp_apply]
    split
    · unfold fastrpc_queue_pd_status
      split <;> rfl
    · rfl

/-- A session that the notification does not find is as it was. -/
theorem mem_notif_find_process_of_ne {s : Apps} {domain : Int} {notif : SmqNotifRspv3}
    {alloc_ok : Bool} {f : File} (hf : f ∈ s.drivers)
    (hne : ∀ g, s.notified notif.pid = some g → f.ptr ≠ g.ptr) :
    f ∈ (fastrpc_notif_find_process s domain notif alloc_ok).drivers := by
  unfold fastrpc_notif_find_process
  split
  · exact hf
  · rename_i g hg
    exact mem_update.mpr (Or.inl ⟨hf, hne g hg⟩)

/-- The session that the notification finds has it at the end of its queue. -/
theorem queued_notif_find_process {s : Apps} {domain : Int} {notif : SmqNotifRspv3} {g : File}
    (hg : s.notified notif.pid = some g) :
    { g with
      notif_queue := g.notif_queue ++ [⟨notif.status, domain, g.sessionid⟩]
      notif_queue_count := g.notif_queue_count + 1 } ∈
      (fastrpc_notif_find_process s domain notif true).drivers := by
  simp only [fastrpc_notif_find_process, hg]
  apply mem_update.mpr
  exact Or.inr ⟨g, List.mem_of_find?_eq_some hg, rfl, rfl⟩

/-! ## The two searches -/

/-- A signal and a notification from `domain` for the process `pid` are delivered to the same
session. It is one of that process in that domain, and there is none only when there is no such
session. -/
structure RoutedAlike (s : Apps) (pid : BitVec 32) (domain : Int) : Prop where
  same : (s.notified pid).map File.toFile = s.signaled pid domain
  own : ∀ f, s.notified pid = some f → f.upid = pid ∧ f.domain = domain
  all : s.notified pid = none → ∀ f ∈ s.drivers, ¬ (f.upid = pid ∧ f.domain = domain)

/-- A session of the process in another domain has one of the process in this domain before it. -/
def OwnFirst (s : Apps) (pid : BitVec 32) (domain : Int) : Prop :=
  ∀ l₁ g l₂, s.drivers = l₁ ++ g :: l₂ → g.upid = pid → g.domain ≠ domain →
    ∃ f ∈ l₁, f.upid = pid ∧ f.domain = domain

theorem notified_eq_some {s : Apps} {pid : BitVec 32} {f : File} :
    s.notified pid = some f ↔
      f.upid = pid ∧ ∃ l₁ l₂, s.drivers = l₁ ++ f :: l₂ ∧ ∀ g ∈ l₁, g.upid ≠ pid := by
  simp [Apps.notified, List.find?_eq_some_iff_append]

theorem notified_eq_none {s : Apps} {pid : BitVec 32} :
    s.notified pid = none ↔ ∀ f ∈ s.drivers, f.upid ≠ pid := by
  simp [Apps.notified]

theorem signaled_eq_none {s : Apps} {pid : BitVec 32} {domain : Int} :
    s.signaled pid domain = none ↔ ∀ f ∈ s.drivers, ¬ (f.upid = pid ∧ f.domain = domain) := by
  simp [Apps.signaled, Apps.signals, dsp_signals.Apps.receiver]

/-- The first session of the process is the one that its signals find, when it is in the domain
of the signals. -/
theorem signaled_of_notified {s : Apps} {pid : BitVec 32} {domain : Int} {f : File}
    (h : s.notified pid = some f) (hd : f.domain = domain) :
    s.signaled pid domain = some f.toFile := by
  obtain ⟨hpid, l₁, l₂, hl, hbefore⟩ := notified_eq_some.mp h
  unfold Apps.signaled dsp_signals.Apps.receiver
  apply List.find?_eq_some_iff_append.mpr
  refine ⟨by simp [hpid, hd], l₁.map File.toFile, l₂.map File.toFile, ?_, ?_⟩
  · simp [Apps.signals, hl]
  · intro g hg
    obtain ⟨g', hg', rfl⟩ := List.mem_map.mp hg
    simp [hbefore g' hg']

/-- The notifications are routed as the signals are when the sessions of the process in the
domain come first, and only then. -/
theorem notifications_are_routed_as_signals_iff (s : Apps) (pid : BitVec 32) (domain : Int) :
    RoutedAlike s pid domain ↔ OwnFirst s pid domain := by
  constructor
  · intro h l₁ g l₂ hl hpid hdom
    rcases hn : s.notified pid with _ | f
    · exact absurd hpid (notified_eq_none.mp hn g (by simp [hl]))
    · obtain ⟨hfp, hfd⟩ := h.own f hn
      -- the first session of the process is `g`, or stands before it
      have hmem : f ∈ l₁ ++ [g] := by
        have hfind := hn
        rw [Apps.notified, hl, List.append_cons] at hfind
        rw [List.find?_append] at hfind
        rcases hfirst : (l₁ ++ [g]).find? (fun f => f.upid == pid) with _ | f'
        · have := List.find?_eq_none.mp hfirst g (by simp)
          simp [hpid] at this
        · rw [hfirst] at hfind
          cases hfind
          exact List.mem_of_find?_eq_some hfirst
      rcases List.mem_append.mp hmem with hf | hf
      · exact ⟨f, hf, hfp, hfd⟩
      · rw [List.mem_singleton.mp hf] at hfd
        exact absurd hfd hdom
  · intro h
    rcases hn : s.notified pid with _ | f
    · have hno : ∀ f ∈ s.drivers, ¬ (f.upid = pid ∧ f.domain = domain) :=
        fun f hf hc => notified_eq_none.mp hn f hf hc.1
      refine ⟨?_, by simp [hn], fun _ => hno⟩
      rw [hn, signaled_eq_none.mpr hno, Option.map_none]
    · obtain ⟨hpid, l₁, l₂, hl, hbefore⟩ := notified_eq_some.mp hn
      have hdom : f.domain = domain := by
        by_contra hne
        obtain ⟨g, hg, hgp, _⟩ := h l₁ f l₂ hl hpid hne
        exact hbefore g hg hgp
      refine ⟨?_, fun g hg => ?_, by simp [hn]⟩
      · rw [hn, signaled_of_notified hn hdom, Option.map_some]
      · cases hn.symm.trans hg
        exact ⟨hpid, hdom⟩

/-- A process that has one id on two domains: its session on domain 0 was opened last, and the
driver puts a new session at the head of the list. -/
def twoDomains : Apps :=
  ⟨[⟨{ hfastrpc_file_alloc 2 with upid := 7, domain := 0 }, 0, [], 0⟩,
    ⟨{ hfastrpc_file_alloc 1 with upid := 7, domain := 3 }, 0, [], 0⟩]⟩

/-- The signals of domain 3 find the session of that domain, and its notifications the other
one. -/
theorem a_notification_goes_to_the_other_domain :
    (twoDomains.drivers.map (fun f => (f.upid, f.domain))).Nodup ∧
      (twoDomains.signaled 7 3).map (fun f => f.ptr) = some 1 ∧
      (twoDomains.notified 7).map (fun f => f.ptr) = some 2 ∧ ¬ RoutedAlike twoDomains 7 3 := by
  refine ⟨by decide, rfl, rfl, fun h => ?_⟩
  have := (h.own _ rfl).2
  exact absurd this (by decide)

end virtual_fastrpc.pd_status
