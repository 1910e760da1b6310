-- The state of a subsystem between the host and the SSR clients of a virtual
-- machine (drivers/subsystem_notif_virt.c). The host writes the state into a
-- register and raises an interrupt; the interrupt queues work, and the work
-- reads the register and tells the clients what it has read.
import PlatformKernel.Lib.Runs
import Mathlib.Logic.Function.Basic
import Mathlib.Data.List.Infix

namespace subsystem_notif_virt

open step_runs

/-! ## The driver -/

def CLIENT_STATE_OFFSET : Nat := 4
def SUBSYS_STATE_OFFSET : Nat := 8

/-- The events as the host counts them. -/
def SUBSYS_BEFORE_SHUTDOWN : BitVec 32 := 0
def SUBSYS_AFTER_SHUTDOWN : BitVec 32 := 1
def SUBSYS_BEFORE_POWERUP : BitVec 32 := 2
def SUBSYS_AFTER_POWERUP : BitVec 32 := 3

/-- The events as the SSR clients know them, and QCOM_SSR_TYPE_INVALID for every other one. -/
inductive SsrNotify
  | QCOM_SSR_BEFORE_SHUTDOWN
  | QCOM_SSR_AFTER_SHUTDOWN
  | QCOM_SSR_BEFORE_POWERUP
  | QCOM_SSR_AFTER_POWERUP
  | QCOM_SSR_TYPE_INVALID
  deriving DecidableEq, Repr

/-- `enum subsystem_type`. A descriptor is virtual until its type is set. -/
inductive SubsystemType
  | VIRTUAL
  | NATIVE
  deriving DecidableEq, Repr

/-- `struct subsystem_descriptor` as far as the events read it. -/
structure SubsystemDescriptor where
  offset : Nat
  type : SubsystemType
  deriving DecidableEq, Repr

/-- The registers that the subsystem has behind `base_reg`. -/
def SubsystemDescriptor.registers (d : SubsystemDescriptor) : List Nat :=
  [d.offset, d.offset + CLIENT_STATE_OFFSET, d.offset + SUBSYS_STATE_OFFSET]

/-- The subsystems of the device tree. Two of them share no byte of a register. -/
structure Subsystems where
  desc : Nat → Option SubsystemDescriptor
  apart : ∀ i j d e, desc i = some d → desc j = some e → i ≠ j →
    ∀ a ∈ d.registers, ∀ b ∈ e.registers, a + 4 ≤ b ∨ b + 4 ≤ a

/-- The switch of subsystem_notif_wq_func. -/
def ssr_type (state : BitVec 32) : SsrNotify :=
  if state = SUBSYS_BEFORE_SHUTDOWN then .QCOM_SSR_BEFORE_SHUTDOWN
  else if state = SUBSYS_AFTER_SHUTDOWN then .QCOM_SSR_AFTER_SHUTDOWN
  else if state = SUBSYS_BEFORE_POWERUP then .QCOM_SSR_BEFORE_POWERUP
  else if state = SUBSYS_AFTER_POWERUP then .QCOM_SSR_AFTER_POWERUP
  else .QCOM_SSR_TYPE_INVALID

/-- A call of qcom_notify_ssr_clients and what it returned. -/
structure Note where
  event : SsrNotify
  ret : BitVec 32
  deriving DecidableEq, Repr

/-- The one thread of `ssr_wq`, in subsystem_notif_wq_func. -/
inductive Worker
  | idle
  /-- Before the register of the state is read. -/
  | started (i : Nat)
  /-- Before the clients are told. -/
  | read (i : Nat) (state : SsrNotify)
  /-- Before the answer of the clients is written. -/
  | notified (i : Nat) (ret : BitVec 32)
  deriving DecidableEq, Repr

/-- The thread works for the subsystem. -/
def Worker.on : Worker → Nat → Prop
  | .idle, _ => False
  | .started j, i => j = i
  | .read j _, i => j = i
  | .notified j _, i => j = i

/-- The registers, the work that is queued, its thread, and what the clients of each subsystem
were told. The last two fields are the host: what it has written, and whether the interrupt for
its last write has come. -/
structure State where
  regs : Nat → BitVec 32
  ssr_wq : List Nat
  worker : Worker
  notes : Nat → List Note
  written : Nat → List (BitVec 32)
  raised : Nat → Bool

/-- The registers as the probe finds them. -/
def init (regs : Nat → BitVec 32) : State :=
  ⟨regs, [], .idle, fun _ => [], fun _ => [], fun _ => false⟩

inductive Act
  /-- The host writes the state of a virtual subsystem. -/
  | host_write (i : Nat) (state : BitVec 32)
  | subsystem_restart_irq_handler (i : Nat)
  | work_start
  | work_read
  /-- qcom_notify_ssr_clients, with what it returns. -/
  | work_notify (ret : BitVec 32)
  | work_reply
  /-- The SSR framework tells a native subsystem of an event. -/
  | subsystem_state_callback (i : Nat) (value : BitVec 32)
  deriving DecidableEq, Repr

/-- `queue_work`: work that is queued already is not queued again. -/
def queue_work (ssr_wq : List Nat) (i : Nat) : List Nat :=
  if i ∈ ssr_wq then ssr_wq else ssr_wq ++ [i]

section

variable (subs : Subsystems)

/-- The subsystem `i`, when it is of the type. -/
def Subsystems.typed (i : Nat) (type : SubsystemType) : Option SubsystemDescriptor :=
  (subs.desc i).filter (fun d => d.type = type)

def writel (s : State) (a : Nat) (v : BitVec 32) : State :=
  { s with regs := Function.update s.regs a v }

def step (s : State) : Act → Option State
  | .host_write i state =>
    (subs.typed i .VIRTUAL).map (fun d =>
      { writel s d.offset state with
        written := Function.update s.written i (s.written i ++ [state])
        raised := Function.update s.raised i false })
  | .subsystem_restart_irq_handler i =>
    (subs.typed i .VIRTUAL).map (fun _ =>
      { s with
        ssr_wq := queue_work s.ssr_wq i
        raised := Function.update s.raised i true })
  | .work_start =>
    match s.worker, s.ssr_wq with
    | .idle, i :: rest => some { s with ssr_wq := rest, worker := .started i }
    | _, _ => none
  | .work_read =>
    match s.worker with
    | .started i =>
      (subs.desc i).map (fun d => { s with worker := .read i (ssr_type (s.regs d.offset)) })
    | _ => none
  | .work_notify ret =>
    match s.worker with
    | .read i state =>
      some { s with
        notes := Function.update s.notes i (s.notes i ++ [⟨state, ret⟩])
        worker := .notified i ret }
    | _ => none
  | .work_reply =>
    match s.worker with
    | .notified i ret =>
      (subs.desc i).map (fun d =>
        { writel s (d.offset + CLIENT_STATE_OFFSET) ret with worker := .idle })
    | _ => none
  | .subsystem_state_callback i value =>
    (subs.typed i .NATIVE).map (fun d => writel s (d.offset + SUBSYS_STATE_OFFSET) value)

end

/-- No work of the subsystem is queued or running. -/
def Quiet (s : State) (i : Nat) : Prop := i ∉ s.ssr_wq ∧ ¬ s.worker.on i

/-- The events that the clients of the subsystem were told, oldest first. -/
def State.events (s : State) (i : Nat) : List SsrNotify := (s.notes i).map Note.event

/-! ## One subsystem alone -/

/-- Where the thread is in its work for one subsystem. -/
inductive Phase
  | away
  | started
  | read (state : SsrNotify)
  | notified (ret : BitVec 32)
  deriving DecidableEq, Repr

def Worker.phase : Worker → Nat → Phase
  | .idle, _ => .away
  | .started j, i => if j = i then .started else .away
  | .read j state, i => if j = i then .read state else .away
  | .notified j ret, i => if j = i then .notified ret else .away

/-- What a state holds for one virtual subsystem. -/
structure Lane where
  state : BitVec 32
  client : BitVec 32
  queued : Bool
  phase : Phase
  notes : List Note
  written : List (BitVec 32)
  raised : Bool

def lane (s : State) (i : Nat) (d : SubsystemDescriptor) : Lane where
  state := s.regs d.offset
  client := s.regs (d.offset + CLIENT_STATE_OFFSET)
  queued := decide (i ∈ s.ssr_wq)
  phase := s.worker.phase i
  notes := s.notes i
  written := s.written i
  raised := s.raised i

inductive LaneAct
  | other
  | host_write (state : BitVec 32)
  | irq
  | start
  | read
  | notify (ret : BitVec 32)
  | reply
  deriving DecidableEq, Repr

/-- The protocol of one subsystem: the host, the interrupt and the work for it. -/
inductive Lane.Step : Lane → LaneAct → Lane → Prop
  | other (l : Lane) : Step l .other l
  | host_write (l : Lane) (v : BitVec 32) :
    Step l (.host_write v) { l with state := v, written := l.written ++ [v], raised := false }
  | irq (l : Lane) : Step l .irq { l with queued := true, raised := true }
  | start (l : Lane) : l.queued = true → l.phase = .away →
    Step l .start { l with queued := false, phase := .started }
  | read (l : Lane) : l.phase = .started → Step l .read { l with phase := .read (ssr_type l.state) }
  | notify (l : Lane) (state : SsrNotify) (ret : BitVec 32) : l.phase = .read state →
    Step l (.notify ret) { l with notes := l.notes ++ [⟨state, ret⟩], phase := .notified ret }
  | reply (l : Lane) (ret : BitVec 32) : l.phase = .notified ret →
    Step l .reply { l with client := ret, phase := .away }

theorem quiet_iff {s : State} {i : Nat} (d : SubsystemDescriptor) :
    Quiet s i ↔ (lane s i d).queued = false ∧ (lane s i d).phase = .away := by
  have hphase : ¬ s.worker.on i ↔ s.worker.phase i = .away := by
    cases s.worker <;> simp [Worker.on, Worker.phase]
  simp [Quiet, lane, hphase]

section

variable {subs : Subsystems} {s t : State} {a : Act} {i : Nat} {d : SubsystemDescriptor}

theorem typed_eq_some {type : SubsystemType} :
    subs.typed i type = some d ↔ subs.desc i = some d ∧ d.type = type := by
  simp [Subsystems.typed, Option.filter_eq_some_iff]

/-- The registers of another subsystem are other registers. -/
theorem Subsystems.ne {j : Nat} {e : SubsystemDescriptor} (hi : subs.desc i = some d)
    (hj : subs.desc j = some e) (hij : j ≠ i) {a b : Nat} (ha : a ∈ d.registers)
    (hb : b ∈ e.registers) : a ≠ b := by
  have := subs.apart i j d e hi hj (Ne.symm hij) a ha b hb
  omega

/-- Two registers of one subsystem are two registers. -/
theorem offset_ne : d.offset ≠ d.offset + CLIENT_STATE_OFFSET ∧
    d.offset ≠ d.offset + SUBSYS_STATE_OFFSET ∧
    d.offset + CLIENT_STATE_OFFSET ≠ d.offset + SUBSYS_STATE_OFFSET := by
  simp [CLIENT_STATE_OFFSET, SUBSYS_STATE_OFFSET]

theorem mem_registers : d.offset ∈ d.registers ∧ d.offset + CLIENT_STATE_OFFSET ∈ d.registers ∧
    d.offset + SUBSYS_STATE_OFFSET ∈ d.registers := by
  simp [SubsystemDescriptor.registers]

/-- A register of another subsystem is written. -/
theorem lane_writel {b : Nat} (v : BitVec 32) (h : ∀ a ∈ d.registers, a ≠ b) :
    lane (writel s b v) i d = lane s i d := by
  have hstate := h _ mem_registers.1
  have hclient := h _ mem_registers.2.1
  unfold lane writel
  rw [Lane.mk.injEq]
  simp [Function.update_of_ne hstate, Function.update_of_ne hclient]

theorem mem_queue_work {q : List Nat} {j k : Nat} : k ∈ queue_work q j ↔ k ∈ q ∨ k = j := by
  unfold queue_work
  split
  · constructor
    · exact Or.inl
    · rintro (h | rfl)
      · exact h
      · assumption
  · simp

/-- Work is queued at most once. -/
theorem nodup_step (h : s.ssr_wq.Nodup) (ht : step subs s a = some t) : t.ssr_wq.Nodup := by
  cases a with
  | host_write j v =>
    obtain ⟨e, _, rfl⟩ := Option.map_eq_some_iff.mp ht
    exact h
  | subsystem_restart_irq_handler j =>
    obtain ⟨e, _, rfl⟩ := Option.map_eq_some_iff.mp ht
    simp only [queue_work]
    split
    · exact h
    · rename_i hj
      rw [List.nodup_append]
      refine ⟨h, by simp, ?_⟩
      intro x hx y hy hxy
      rw [List.mem_singleton.mp hy] at hxy
      exact hj (hxy ▸ hx)
  | work_start =>
    simp only [step] at ht
    split at ht
    · rename_i hwq
      cases ht
      rw [hwq] at h
      exact h.tail
    · cases ht
  | work_read =>
    simp only [step] at ht
    split at ht
    · obtain ⟨e, _, rfl⟩ := Option.map_eq_some_iff.mp ht
      exact h
    · cases ht
  | work_notify ret =>
    simp only [step] at ht
    split at ht
    · cases ht
      exact h
    · cases ht
  | work_reply =>
    simp only [step] at ht
    split at ht
    · obtain ⟨e, _, rfl⟩ := Option.map_eq_some_iff.mp ht
      exact h
    · cases ht
  | subsystem_state_callback j v =>
    obtain ⟨e, _, rfl⟩ := Option.map_eq_some_iff.mp ht
    exact h

/-- A step of the machine is a step of the subsystem, or leaves it as it is. -/
theorem step_lane (hi : subs.typed i .VIRTUAL = some d) (hq : s.ssr_wq.Nodup)
    (ht : step subs s a = some t) :
    ∃ b, (lane s i d).Step b (lane t i d) ∧ (∀ v, b = .host_write v → a = .host_write i v) ∧
      (b = .irq → a = .subsystem_restart_irq_handler i) := by
  obtain ⟨hdesc, htype⟩ := typed_eq_some.mp hi
  have hother : lane t i d = lane s i d → ∃ b, (lane s i d).Step b (lane t i d) ∧
      (∀ v, b = .host_write v → a = .host_write i v) ∧
      (b = .irq → a = .subsystem_restart_irq_handler i) :=
    fun h => ⟨.other, h ▸ .other _, by simp, by simp⟩
  cases a with
  | host_write j v =>
    obtain ⟨e, he, rfl⟩ := Option.map_eq_some_iff.mp ht
    by_cases hj : j = i
    · subst hj
      cases he.symm.trans hi
      refine ⟨.host_write v, ?_, by simp, by simp⟩
      have hstep := Lane.Step.host_write (lane s j d) v
      have hne := (offset_ne (d := d)).1.symm
      simp only [lane, writel, Function.update_self, Function.update_of_ne hne] at hstep ⊢
      exact hstep
    · apply hother
      have hreg := lane_writel (s := s) (i := i) v (fun b hb =>
        subs.ne hdesc (typed_eq_some.mp he).1 hj hb mem_registers.1)
      simp only [lane, writel, Lane.mk.injEq] at hreg ⊢
      simp [hreg, Function.update_of_ne (Ne.symm hj)]
  | subsystem_restart_irq_handler j =>
    obtain ⟨e, he, rfl⟩ := Option.map_eq_some_iff.mp ht
    by_cases hj : j = i
    · subst hj
      refine ⟨.irq, ?_, by simp, by simp⟩
      have hstep := Lane.Step.irq (lane s j d)
      simp only [lane, Function.update_self, mem_queue_work, or_true, decide_true] at hstep ⊢
      exact hstep
    · apply hother
      simp [lane, mem_queue_work, Ne.symm hj]
  | work_start =>
    simp only [step] at ht
    split at ht
    · rename_i j rest hw hwq
      cases ht
      rw [hwq] at hq
      by_cases hj : j = i
      · subst hj
        refine ⟨.start, ?_, by simp, by simp⟩
        have hnot : j ∉ rest := (List.nodup_cons.mp hq).1
        have hstep := Lane.Step.start (lane s j d) (by simp [lane, hwq])
          (by simp [lane, hw, Worker.phase])
        simp only [lane, Worker.phase, hnot, decide_false, if_true] at hstep ⊢
        exact hstep
      · apply hother
        simp [lane, Worker.phase, hw, hwq, hj, Ne.symm hj]
    · cases ht
  | work_read =>
    simp only [step] at ht
    split at ht
    · rename_i j hw
      obtain ⟨e, he, rfl⟩ := Option.map_eq_some_iff.mp ht
      by_cases hj : j = i
      · subst hj
        cases he.symm.trans hdesc
        refine ⟨.read, ?_, by simp, by simp⟩
        have hstep := Lane.Step.read (lane s j d) (by simp [lane, hw, Worker.phase])
        simp only [lane, Worker.phase, if_true] at hstep ⊢
        exact hstep
      · apply hother
        simp [lane, Worker.phase, hw, hj]
    · cases ht
  | work_notify ret =>
    simp only [step] at ht
    split at ht
    · rename_i j state hw
      cases ht
      by_cases hj : j = i
      · subst hj
        refine ⟨.notify ret, ?_, by simp, by simp⟩
        have hstep := Lane.Step.notify (lane s j d) state ret (by simp [lane, hw, Worker.phase])
        simp only [lane, Worker.phase, if_true, Function.update_self] at hstep ⊢
        exact hstep
      · apply hother
        simp [lane, Worker.phase, hw, hj, Ne.symm hj]
    · cases ht
  | work_reply =>
    simp only [step] at ht
    split at ht
    · rename_i j ret hw
      obtain ⟨e, he, rfl⟩ := Option.map_eq_some_iff.mp ht
      by_cases hj : j = i
      · subst hj
        cases he.symm.trans hdesc
        refine ⟨.reply, ?_, by simp, by simp⟩
        have hstep := Lane.Step.reply (lane s j d) ret (by simp [lane, hw, Worker.phase])
        have hne := (offset_ne (d := d)).1
        simp only [lane, writel, Worker.phase, Function.update_self,
          Function.update_of_ne hne] at hstep ⊢
        exact hstep
      · apply hother
        have hreg := lane_writel (s := s) (i := i) ret (fun b hb =>
          subs.ne hdesc he hj hb mem_registers.2.1)
        simp only [lane, writel, Lane.mk.injEq] at hreg ⊢
        simp [hreg, Worker.phase, hw, hj]
    · cases ht
  | subsystem_state_callback j v =>
    obtain ⟨e, he, rfl⟩ := Option.map_eq_some_iff.mp ht
    obtain ⟨hdesc', htype'⟩ := typed_eq_some.mp he
    apply hother
    have hj : j ≠ i := by
      rintro rfl
      cases hdesc.symm.trans hdesc'
      cases htype.symm.trans htype'
    exact lane_writel v (fun b hb =>
      subs.ne hdesc hdesc' hj hb mem_registers.2.2)

end

/-! ## The last state -/

/-- The clients know the state for which the interrupt came, or the work that tells them of it is
queued or under way. -/
def Lane.Told (l : Lane) : Prop :=
  l.raised = true → l.queued = true ∨ l.phase = .started ∨ l.phase = .read (ssr_type l.state) ∨
    ∃ n, l.notes.getLast? = some n ∧ n.event = ssr_type l.state ∧
      (l.phase = .notified n.ret ∨ l.phase = .away ∧ l.client = n.ret)

theorem Lane.Told.step {l m : Lane} {b : LaneAct} (h : l.Told) (hs : l.Step b m) : m.Told := by
  intro hr
  cases hs with
  | other => exact h hr
  | host_write v => cases hr
  | irq => exact Or.inl rfl
  | start hq hp => exact Or.inr (Or.inl rfl)
  | read hp => exact Or.inr (Or.inr (Or.inl rfl))
  | notify state ret hp =>
    rcases h hr with hq | hs | hrd | ⟨n, _, _, hn | ⟨hn, _⟩⟩
    · exact Or.inl hq
    · cases hp.symm.trans hs
    · cases hp.symm.trans hrd
      exact Or.inr (Or.inr (Or.inr ⟨⟨ssr_type l.state, ret⟩, by simp, rfl, Or.inl rfl⟩))
    · cases hp.symm.trans hn
    · cases hp.symm.trans hn
  | reply ret hp =>
    rcases h hr with hq | hs | hrd | ⟨n, hlast, hev, hn | ⟨hn, _⟩⟩
    · exact Or.inl hq
    · cases hp.symm.trans hs
    · cases hp.symm.trans hrd
    · cases hp.symm.trans hn
      exact Or.inr (Or.inr (Or.inr ⟨n, hlast, hev, Or.inr ⟨rfl, rfl⟩⟩))
    · cases hp.symm.trans hn

/-! ## The order of the states -/

/-- The events are what the register held at times that do not go back. -/
def InOrder (seen : List (BitVec 32)) (events : List SsrNotify) : Prop :=
  ∃ ps : List Nat, ps.Pairwise (· ≤ ·) ∧
    events.map some = ps.map (fun p => seen[p]?.map ssr_type)

/-- What the register of the state has held since the probe, which found `first` in it. -/
def Lane.seen (l : Lane) (first : BitVec 32) : List (BitVec 32) := first :: l.written

/-- The clients were told of `ps`, and the work has read a state that is no older. -/
structure Lane.Sampled (first : BitVec 32) (l : Lane) (ps : List Nat) : Prop where
  sorted : ps.Pairwise (· ≤ ·)
  past : ∀ p ∈ ps, p < (l.seen first).length
  told : (l.notes.map Note.event).map some = ps.map (fun p => (l.seen first)[p]?.map ssr_type)
  last : (l.seen first).getLast? = some l.state
  reading : ∀ state, l.phase = .read state → ∃ p < (l.seen first).length,
    (l.seen first)[p]?.map ssr_type = some state ∧ ∀ q ∈ ps, q ≤ p

theorem Lane.Sampled.step {first : BitVec 32} {l m : Lane} {b : LaneAct} {ps : List Nat}
    (h : l.Sampled first ps) (hs : l.Step b m) : ∃ ps, m.Sampled first ps := by
  cases hs with
  | other => exact ⟨ps, h⟩
  | host_write v =>
    -- the positions are those of the older states
    have hseen : ∀ p, p < (l.seen first).length →
        (first :: (l.written ++ [v]))[p]? = (l.seen first)[p]? := by
      intro p hp
      rw [← List.cons_append]
      exact List.getElem?_append_left hp
    have hlen : (l.seen first).length < (first :: (l.written ++ [v])).length := by
      simp [Lane.seen]
    refine ⟨ps, h.sorted, fun p hp => (h.past p hp).trans hlen, ?_, ?_, ?_⟩
    · refine h.told.trans (List.map_congr_left (fun p hp => ?_))
      exact congrArg (Option.map ssr_type) (hseen p (h.past p hp)).symm
    · show (first :: (l.written ++ [v])).getLast? = some v
      rw [← List.cons_append, List.getLast?_append]
      rfl
    · intro state hp
      obtain ⟨p, hlt, hst, hle⟩ := h.reading state hp
      refine ⟨p, hlt.trans hlen, ?_, hle⟩
      exact (congrArg (Option.map ssr_type) (hseen p hlt)).trans hst
  | irq => exact ⟨ps, h.sorted, h.past, h.told, h.last, h.reading⟩
  | start hq hp => exact ⟨ps, h.sorted, h.past, h.told, h.last, by simp⟩
  | read hp =>
    refine ⟨ps, h.sorted, h.past, h.told, h.last, ?_⟩
    intro state hst
    cases hst
    have hlast := h.last
    rw [List.getLast?_eq_getElem?] at hlast
    have hpos : 0 < (l.seen first).length := by simp [Lane.seen]
    refine ⟨(l.seen first).length - 1, Nat.sub_lt hpos Nat.one_pos, ?_, ?_⟩
    · exact congrArg (Option.map ssr_type) hlast
    · intro q hq
      have := h.past q hq
      omega
  | notify state ret hp =>
    obtain ⟨p, hlt, hst, hle⟩ := h.reading state hp
    refine ⟨ps ++ [p], ?_, ?_, ?_, h.last, by simp⟩
    · rw [List.pairwise_append]
      exact ⟨h.sorted, List.pairwise_singleton _ _, by simpa using hle⟩
    · intro q hq
      rcases List.mem_append.mp hq with hq | hq
      · exact h.past q hq
      · rw [List.mem_singleton.mp hq]
        exact hlt
    · have htold := h.told
      simp only [Lane.seen, List.map_append, List.map_cons, List.map_nil] at htold hst ⊢
      rw [htold, hst]
  | reply ret hp => exact ⟨ps, h.sorted, h.past, h.told, h.last, by simp⟩

/-! ## The states one by one -/

/-- The host writes a state when the work for the last one is done, and raises one interrupt for
each state. -/
def Lane.Handshake (l : Lane) : LaneAct → Prop
  | .host_write _ => (l.queued = false ∧ l.phase = .away) ∧ (l.raised = true ∨ l.written = [])
  | .irq => l.raised = false ∧ l.written ≠ []
  | _ => True

def Lane.events (l : Lane) : List SsrNotify := l.notes.map Note.event

/-- The states that were written, as the clients know them. -/
def Lane.states (l : Lane) : List SsrNotify := l.written.map ssr_type

/-- The turns of a host that keeps to the handshake. -/
inductive Lane.Turn (l : Lane) : Prop
  | fresh : l.queued = false → l.phase = .away → l.raised = false → l.written = [] →
    l.notes = [] → Turn l
  | written : l.queued = false → l.phase = .away → l.raised = false → l.written ≠ [] →
    l.states = l.events ++ [ssr_type l.state] → Turn l
  | queued : l.queued = true → l.phase = .away → l.raised = true →
    l.states = l.events ++ [ssr_type l.state] → Turn l
  | started : l.queued = false → l.phase = .started → l.raised = true →
    l.states = l.events ++ [ssr_type l.state] → Turn l
  | read (state : SsrNotify) : l.queued = false → l.phase = .read state → l.raised = true →
    l.states = l.events ++ [state] → Turn l
  | notified (ret : BitVec 32) : l.queued = false → l.phase = .notified ret → l.raised = true →
    l.states = l.events → Turn l
  | done : l.queued = false → l.phase = .away → l.raised = true → l.states = l.events → Turn l

theorem Lane.Turn.step {l m : Lane} {b : LaneAct} (h : l.Turn) (hc : l.Handshake b)
    (hs : l.Step b m) : m.Turn := by
  cases hs with
  | other => exact h
  | host_write v =>
    obtain ⟨⟨hq, hp⟩, hr⟩ := hc
    have heq : l.states = l.events := by
      rcases h with ⟨_, _, _, hw, hn⟩ | ⟨_, _, hr', hw, _⟩ | ⟨hq', _⟩ | ⟨_, hp', _⟩ |
        ⟨st, _, hp', _⟩ | ⟨ret, _, hp', _⟩ | ⟨_, _, _, he⟩
      · simp [Lane.states, Lane.events, hw, hn]
      · rcases hr with hr | hr
        · cases hr'.symm.trans hr
        · exact absurd hr hw
      · cases hq.symm.trans hq'
      · cases hp.symm.trans hp'
      · cases hp.symm.trans hp'
      · cases hp.symm.trans hp'
      · exact he
    refine .written hq hp rfl (by simp) ?_
    show (l.written ++ [v]).map ssr_type = l.events ++ [ssr_type v]
    rw [List.map_append, ← heq]
    rfl
  | irq =>
    obtain ⟨hr, hw⟩ := hc
    rcases h with ⟨_, _, _, hw', _⟩ | ⟨_, hp, _, _, he⟩ | ⟨_, _, hr', _⟩ | ⟨_, _, hr', _⟩ |
      ⟨st, _, _, hr', _⟩ | ⟨ret, _, _, hr', _⟩ | ⟨_, _, hr', _⟩
    · exact absurd hw' hw
    · exact .queued rfl hp rfl he
    all_goals cases hr.symm.trans hr'
  | start hq hp =>
    rcases h with ⟨hq', _⟩ | ⟨hq', _⟩ | ⟨_, _, hr, he⟩ | ⟨hq', _⟩ | ⟨st, hq', _⟩ | ⟨ret, hq', _⟩ |
      ⟨hq', _⟩
    case queued => exact .started rfl rfl hr he
    all_goals cases hq.symm.trans hq'
  | read hp =>
    rcases h with ⟨_, hp', _⟩ | ⟨_, hp', _⟩ | ⟨_, hp', _⟩ | ⟨hq, _, hr, he⟩ | ⟨st, _, hp', _⟩ |
      ⟨ret, _, hp', _⟩ | ⟨_, hp', _⟩
    case started => exact .read _ hq rfl hr he
    all_goals cases hp.symm.trans hp'
  | notify state ret hp =>
    rcases h with ⟨_, hp', _⟩ | ⟨_, hp', _⟩ | ⟨_, hp', _⟩ | ⟨_, hp', _⟩ | ⟨st, hq, hp', hr, he⟩ |
      ⟨ret', _, hp', _⟩ | ⟨_, hp', _⟩
    case read =>
      cases hp.symm.trans hp'
      refine .notified ret hq rfl hr (he.trans ?_)
      simp [Lane.events]
    all_goals cases hp.symm.trans hp'
  | reply ret hp =>
    rcases h with ⟨_, hp', _⟩ | ⟨_, hp', _⟩ | ⟨_, hp', _⟩ | ⟨_, hp', _⟩ | ⟨st, _, hp', _⟩ |
      ⟨ret', hq, _, hr, he⟩ | ⟨_, hp', _⟩
    case notified => exact .done hq rfl hr he
    all_goals cases hp.symm.trans hp'

/-! ## The laws -/

section

variable {subs : Subsystems} {regs : Nat → BitVec 32} {s : State} {i : Nat}
  {d : SubsystemDescriptor}

/-- An invariant of the subsystem alone is one of the machine. -/
theorem reachable_lane (I : Lane → Prop) (hd : subs.typed i .VIRTUAL = some d)
    (h₀ : I (lane (init regs) i d)) (hstep : ∀ l b m, I l → l.Step b m → I m)
    (h : Reachable (step subs) (init regs) s) : I (lane s i d) := by
  refine (Reachable.inv (fun s => s.ssr_wq.Nodup ∧ I (lane s i d)) ?_ ⟨List.nodup_nil, h₀⟩ h).2
  rintro s a t ⟨hq, hI⟩ ht
  obtain ⟨b, hb, _⟩ := step_lane hd hq ht
  exact ⟨nodup_step hq ht, hstep _ b _ hI hb⟩

/-- When the interrupt for the last state has come and the work is done, that state is the last
event that the clients were told, and their answer is in the client register. -/
theorem the_last_state_reaches_the_clients (hd : subs.typed i .VIRTUAL = some d)
    (h : Reachable (step subs) (init regs) s) (hr : s.raised i = true) (hq : Quiet s i) :
    ∃ n, (s.notes i).getLast? = some n ∧ n.event = ssr_type (s.regs d.offset) ∧
      s.regs (d.offset + CLIENT_STATE_OFFSET) = n.ret := by
  have htold : (lane s i d).Told :=
    reachable_lane Lane.Told hd (by simp [Lane.Told, lane, init]) (fun _ _ _ => Lane.Told.step) h
  obtain ⟨hqueued, hphase⟩ := (quiet_iff d).mp hq
  rcases htold hr with hq' | hs | hrd | ⟨n, hlast, hev, hn | ⟨_, hc⟩⟩
  · cases hqueued.symm.trans hq'
  · cases hphase.symm.trans hs
  · cases hphase.symm.trans hrd
  · cases hphase.symm.trans hn
  · exact ⟨n, hlast, hev, hc⟩

/-- A virtual subsystem, and a native one behind it. -/
def sampleDesc (i : Nat) : Option SubsystemDescriptor :=
  if i = 0 then some ⟨0, .VIRTUAL⟩ else if i = 1 then some ⟨16, .NATIVE⟩ else none

theorem sampleDesc_apart (i j : Nat) (d e : SubsystemDescriptor) (hi : sampleDesc i = some d)
    (hj : sampleDesc j = some e) (hij : i ≠ j) :
    ∀ a ∈ d.registers, ∀ b ∈ e.registers, a + 4 ≤ b ∨ b + 4 ≤ a := by
  unfold sampleDesc at hi hj
  split at hi
  · split at hj
    · omega
    · split at hj
      · cases hi
        cases hj
        decide
      · cases hj
  · split at hi
    · split at hj
      · cases hi
        cases hj
        decide
      · split at hj
        · omega
        · cases hj
    · cases hi

def sample : Subsystems := ⟨sampleDesc, sampleDesc_apart⟩

/-- The host writes again when the work has begun and has not read. -/
def overtaken : List Act :=
  [.host_write 0 0, .subsystem_restart_irq_handler 0, .work_start, .host_write 0 1, .work_read,
    .subsystem_restart_irq_handler 0, .subsystem_state_callback 1 3, .work_notify 7, .work_reply,
    .work_start, .work_read, .work_notify 9, .work_reply]

theorem overtaken_state_is_told :
    ∃ s n, run (step sample) (init (fun _ => 0)) overtaken = some s ∧ s.written 0 = [0, 1] ∧
      s.events 0 = [.QCOM_SSR_AFTER_SHUTDOWN, .QCOM_SSR_AFTER_SHUTDOWN] ∧
      (s.notes 0).getLast? = some n ∧ n.event = ssr_type (s.regs 0) ∧ s.regs 4 = n.ret := by
  obtain ⟨s, hs⟩ : ∃ s, run (step sample) (init (fun _ => 0)) overtaken = some s := ⟨_, rfl⟩
  have hquiet : Quiet s 0 := by
    cases hs
    exact ⟨List.not_mem_nil, id⟩
  have hraised : s.raised 0 = true := by
    cases hs
    rfl
  have hd : sample.typed 0 .VIRTUAL = some ⟨0, .VIRTUAL⟩ := rfl
  obtain ⟨n, hn⟩ := the_last_state_reaches_the_clients hd ⟨_, hs⟩ hraised hquiet
  refine ⟨s, n, hs, ?_, ?_, hn⟩
  · cases hs
    rfl
  · cases hs
    rfl

/-- The clients are told of states of the register in the order in which it held them. -/
theorem the_clients_see_the_states_in_order (hd : subs.typed i .VIRTUAL = some d)
    (h : Reachable (step subs) (init regs) s) :
    InOrder (regs d.offset :: s.written i) (s.events i) := by
  have hsampled : ∃ ps, (lane s i d).Sampled (regs d.offset) ps := by
    refine reachable_lane (fun l => ∃ ps, l.Sampled (regs d.offset) ps) hd ⟨[], ?_⟩ ?_ h
    · constructor <;> simp [lane, init, Lane.seen, Worker.phase]
    · rintro l b m ⟨ps, hl⟩ hs
      exact hl.step hs
  obtain ⟨ps, hps⟩ := hsampled
  exact ⟨ps, hps.sorted, hps.told⟩

theorem overtaken_states_are_in_order :
    ∃ s, run (step sample) (init (fun _ => 0)) overtaken = some s ∧
      InOrder (0 :: s.written 0) (s.events 0) := by
  obtain ⟨s, hs⟩ : ∃ s, run (step sample) (init (fun _ => 0)) overtaken = some s := ⟨_, rfl⟩
  have hd : sample.typed 0 .VIRTUAL = some ⟨0, .VIRTUAL⟩ := rfl
  exact ⟨s, hs, the_clients_see_the_states_in_order hd ⟨_, hs⟩⟩

/-- The condition of the handshake for the steps of one subsystem. -/
def Handshake (i : Nat) (s : State) (a : Act) : Prop :=
  (∀ v, a = .host_write i v → Quiet s i ∧ (s.raised i = true ∨ s.written i = [])) ∧
    (a = .subsystem_restart_irq_handler i → s.raised i = false ∧ s.written i ≠ [])

/-- The work is queued once, and the host and the work take turns. -/
def Turns (s : State) (i : Nat) (d : SubsystemDescriptor) : Prop :=
  s.ssr_wq.Nodup ∧ (lane s i d).Turn

theorem turns_init (regs : Nat → BitVec 32) : Turns (init regs) i d := by
  refine ⟨List.nodup_nil, ?_⟩
  exact .fresh rfl rfl rfl rfl rfl

theorem Turns.step {t : State} {a : Act} (h : Turns s i d) (hd : subs.typed i .VIRTUAL = some d)
    (hc : Handshake i s a) (ht : step subs s a = some t) : Turns t i d := by
  obtain ⟨hq, hI⟩ := h
  obtain ⟨hhost, hirq⟩ := hc
  obtain ⟨b, hb, hbh, hbi⟩ := step_lane hd hq ht
  refine ⟨nodup_step hq ht, hI.step ?_ hb⟩
  cases b with
  | host_write v =>
    obtain ⟨hquiet, hr⟩ := hhost v (hbh v rfl)
    exact ⟨(quiet_iff d).mp hquiet, hr⟩
  | irq => exact hirq (hbi rfl)
  | _ => trivial

/-- Between two turns of the host the clients have heard of all its states. -/
theorem Turns.heard (h : Turns s i d) (hr : s.raised i = true) (hq : Quiet s i) :
    s.events i = (s.written i).map ssr_type := by
  obtain ⟨hqueued, hphase⟩ := (quiet_iff d).mp hq
  rcases h.2 with ⟨_, _, hr', _⟩ | ⟨_, _, hr', _⟩ | ⟨hq', _⟩ | ⟨_, hp, _⟩ | ⟨st, _, hp, _⟩ |
    ⟨ret, _, hp, _⟩ | ⟨_, _, _, he⟩
  · cases hr.symm.trans hr'
  · cases hr.symm.trans hr'
  · cases hqueued.symm.trans hq'
  · cases hphase.symm.trans hp
  · cases hphase.symm.trans hp
  · cases hphase.symm.trans hp
  · exact he.symm

/-- A host that waits for the work gets each of its states to the clients once, in its order;
behind the last of them is at most one that is on its way. -/
theorem a_waiting_host_is_heard_once (hd : subs.typed i .VIRTUAL = some d)
    (h : ReachableUnder (step subs) (Handshake i) (init regs) s) :
    s.events i <+: (s.written i).map ssr_type ∧ (s.written i).length ≤ (s.events i).length + 1 ∧
      (s.raised i = true → Quiet s i → s.events i = (s.written i).map ssr_type) := by
  have hturn : Turns s i d :=
    ReachableUnder.inv (fun s => Turns s i d) (fun _ _ _ hs hc ht => hs.step hd hc ht)
      (turns_init regs) h
  have hbehind : (∃ v, (s.written i).map ssr_type = s.events i ++ [v]) ∨
      (s.written i).map ssr_type = s.events i := by
    rcases hturn.2 with ⟨_, _, _, hw, hn⟩ | ⟨_, _, _, _, he⟩ | ⟨_, _, _, he⟩ | ⟨_, _, _, he⟩ |
      ⟨st, _, _, _, he⟩ | ⟨ret, _, _, _, he⟩ | ⟨_, _, _, he⟩
    · have hw' : s.written i = [] := hw
      have hn' : s.notes i = [] := hn
      exact Or.inr (by simp [State.events, hw', hn'])
    · exact Or.inl ⟨_, he⟩
    · exact Or.inl ⟨_, he⟩
    · exact Or.inl ⟨_, he⟩
    · exact Or.inl ⟨_, he⟩
    · exact Or.inr he
    · exact Or.inr he
  refine ⟨?_, ?_, hturn.heard⟩
  · rcases hbehind with ⟨v, he⟩ | he
    · exact ⟨[v], he.symm⟩
    · exact ⟨[], by rw [he, List.append_nil]⟩
  · rw [← List.length_map (f := ssr_type)]
    rcases hbehind with ⟨v, he⟩ | he
    · simp [he]
    · simp [he]

/-- The steps of the work. -/
def work (ret : BitVec 32) : List Act := [.work_start, .work_read, .work_notify ret, .work_reply]

/-- A shutdown of the virtual subsystem, and a native one that comes up after it. -/
def shutdown : List Act :=
  .host_write 0 0 :: .subsystem_restart_irq_handler 0 :: (work 7 ++
    .host_write 0 1 :: .subsystem_restart_irq_handler 0 :: (work 9 ++
      [.subsystem_state_callback 1 3]))

theorem meets_work (ret : BitVec 32) (s : State) :
    Meets (step sample) (Handshake 0) s (work ret) := by
  refine meets_of_forall (fun a ha t => ?_) s
  simp [work] at ha
  rcases ha with rfl | rfl | rfl | rfl <;> simp [Handshake]

theorem shutdown_is_heard_once :
    ∃ s, run (step sample) (init (fun _ => 4)) shutdown = some s ∧
      s.events 0 = [.QCOM_SSR_BEFORE_SHUTDOWN, .QCOM_SSR_AFTER_SHUTDOWN] ∧
      s.events 0 = (s.written 0).map ssr_type := by
  obtain ⟨s, hs⟩ : ∃ s, run (step sample) (init (fun _ => 4)) shutdown = some s := ⟨_, rfl⟩
  have hmeets : Meets (step sample) (Handshake 0) (init (fun _ => 4)) shutdown := by
    have hfirst : Quiet (init (fun _ => 4)) 0 := ⟨List.not_mem_nil, id⟩
    refine Meets.cons ⟨fun v _ => ⟨hfirst, Or.inr rfl⟩, by simp⟩ rfl ?_
    refine Meets.cons ⟨by simp, fun _ => ⟨rfl, by simp⟩⟩ rfl ?_
    refine Meets.append (meets_work 7 _) rfl ?_
    refine Meets.cons ⟨fun v _ => ⟨⟨List.not_mem_nil, id⟩, Or.inl rfl⟩, by simp⟩ rfl ?_
    refine Meets.cons ⟨by simp, fun _ => ⟨rfl, by simp⟩⟩ rfl ?_
    exact Meets.append (meets_work 9 _) rfl
      (Meets.cons ⟨by simp, by simp⟩ rfl trivial)
  have hd : sample.typed 0 .VIRTUAL = some ⟨0, .VIRTUAL⟩ := rfl
  have h := a_waiting_host_is_heard_once hd ⟨shutdown, hmeets, hs⟩
  refine ⟨s, hs, ?_, h.2.2 ?_ ?_⟩
  · cases hs
    rfl
  · cases hs
    rfl
  · cases hs
    exact ⟨List.not_mem_nil, id⟩

end

end subsystem_notif_virt
