-- The monitor of the silent mode (drivers/silent-mode-hw-monitoring.c): the
-- probe that asks for the interrupt of its GPIO, and the suspend and resume
-- that disable it and enable it again.
import PlatformKernel.Lib.Runs
import Mathlib.Logic.Function.Basic
import Mathlib.Data.List.Count

namespace silent_mode

open step_runs

/-! ## The driver -/

def ENOMEM : Int := 12
def EEXIST : Int := 17
def EINVAL : Int := 22

/-- `struct silent_mode_info` as far as the suspend and the resume read it. -/
structure SilentModeInfo where
  sgpio : Int
  sirq : Int
  deriving DecidableEq, Repr

/-- The driver data of the device, and how often each interrupt of the kernel is disabled. An
interrupt is enabled at depth 0. -/
structure Device where
  drvdata : Option SilentModeInfo
  depth : Int → Nat

def disable_irq (depth : Int → Nat) (irq : Int) : Int → Nat :=
  Function.update depth irq (depth irq + 1)

/-- The kernel warns of an enable that no disable stands before, and leaves the depth at 0. -/
def enable_irq (depth : Int → Nat) (irq : Int) : Int → Nat :=
  Function.update depth irq (depth irq - 1)

/-- `gpio_value` is what gpio_get_value returns. -/
def silent_mode_enable_monitor (s : Device) (gpio_value : Int) : Device × Int :=
  match s.drvdata with
  | none => (s, 0)
  | some info =>
    if gpio_value ≠ 0 then ({ s with depth := enable_irq s.depth info.sirq }, 0)
    else (s, -EEXIST)

def silent_mode_disable_monitor (s : Device) : Device × Int :=
  match s.drvdata with
  | none => (s, 0)
  | some info => ({ s with depth := disable_irq s.depth info.sirq }, 0)

/-- The log line reads the platform device of the driver data: without driver data the call does
not return. -/
def logged (r : Device × Int) : Option (Device × Int) :=
  r.1.drvdata.map (fun _ => r)

def silent_mode_suspend_late (s : Device) : Option (Device × Int) :=
  logged (silent_mode_disable_monitor s)

def silent_mode_resume_early (s : Device) (gpio_value : Int) : Option (Device × Int) :=
  logged (silent_mode_enable_monitor s gpio_value)

/-- What the probe gets from the kernel. -/
structure ProbeEnv where
  /-- pm_silentmode_get_mode. -/
  mode : Int
  alloc_ok : Bool
  /-- of_get_named_gpio, and whether gpio_is_valid takes it. -/
  sgpio : Int
  valid : Bool
  /-- devm_gpio_request_one. -/
  gpio_request : Int
  /-- gpiod_to_irq. -/
  sirq : Int
  /-- gpiod_set_debounce. -/
  debounce : Int
  /-- devm_request_any_context_irq: the kind of the interrupt, or an error. -/
  irq_request : Int

def forced_mode_enforced (e : ProbeEnv) : Bool := decide (e.mode < 0)

/-- The interrupt that the driver gets is enabled. -/
def silent_mode_init_monitor (s : Device) (e : ProbeEnv) : Device × Int :=
  if e.valid = false then (s, -EINVAL)
  else
    let s := { s with drvdata := s.drvdata.map (fun info => { info with sirq := e.sirq }) }
    if e.debounce < 0 then (s, e.debounce)
    else if e.irq_request < 0 then (s, e.irq_request)
    else ({ s with depth := Function.update s.depth e.sirq 0 }, e.irq_request)

/-- An error of the GPIO request does not end the probe, and the result of the monitor takes its
place. -/
def silent_mode_probe (s : Device) (e : ProbeEnv) : Device × Int :=
  if forced_mode_enforced e then (s, 0)
  else if e.alloc_ok = false then (s, -ENOMEM)
  else
    let r := silent_mode_init_monitor { s with drvdata := some ⟨e.sgpio, 0⟩ } e
    (r.1, if r.2 < 0 then -EINVAL else r.2)

inductive Act
  | suspend_late
  | resume_early (gpio_value : Int)
  deriving DecidableEq, Repr

def step (s : Device) : Act → Option Device
  | .suspend_late => (silent_mode_suspend_late s).map Prod.fst
  | .resume_early gpio_value => (silent_mode_resume_early s gpio_value).map Prod.fst

/-- The suspend and resume cycles, with the level of the GPIO at each resume. -/
def cycles (levels : List Int) : List Act :=
  levels.flatMap (fun v => [.suspend_late, .resume_early v])

/-! ## The depth after a history of cycles -/

/-- The interrupt of the monitor is enabled. -/
def Armed (s : Device) : Prop := ∃ info, s.drvdata = some info ∧ s.depth info.sirq = 0

/-- The device with the interrupt of the monitor at another depth. -/
def Device.atDepth (s : Device) (irq : Int) (n : Nat) : Device :=
  { s with depth := Function.update s.depth irq n }

@[simp] theorem Device.atDepth_drvdata (s : Device) (irq : Int) (n : Nat) :
    (s.atDepth irq n).drvdata = s.drvdata := rfl

@[simp] theorem Device.atDepth_depth (s : Device) (irq : Int) (n : Nat) :
    (s.atDepth irq n).depth irq = n := by
  simp [Device.atDepth]

@[simp] theorem Device.atDepth_atDepth (s : Device) (irq : Int) (m n : Nat) :
    (s.atDepth irq m).atDepth irq n = s.atDepth irq n := by
  simp [Device.atDepth]

theorem step_suspend_late {s : Device} {info : SilentModeInfo} (h : s.drvdata = some info) :
    step s .suspend_late = some (s.atDepth info.sirq (s.depth info.sirq + 1)) := by
  simp [step, silent_mode_suspend_late, silent_mode_disable_monitor, logged, h, disable_irq,
    Device.atDepth]

theorem step_resume_early {s : Device} {info : SilentModeInfo} (h : s.drvdata = some info)
    (v : Int) : step s (.resume_early v) =
      some (s.atDepth info.sirq (s.depth info.sirq - if v ≠ 0 then 1 else 0)) := by
  by_cases hv : v = 0
  · have hsame : s.atDepth info.sirq (s.depth info.sirq) = s := by simp [Device.atDepth]
    simp [step, silent_mode_resume_early, silent_mode_enable_monitor, logged, h, hv, hsame]
  · simp [step, silent_mode_resume_early, silent_mode_enable_monitor, logged, h, hv, enable_irq,
      Device.atDepth]

/-- A cycle with a low level leaves the interrupt one deeper. -/
theorem run_cycle {s : Device} {info : SilentModeInfo} (h : s.drvdata = some info) (v : Int)
    (as : List Act) :
    run step s (.suspend_late :: .resume_early v :: as) =
      run step (s.atDepth info.sirq (s.depth info.sirq + if v = 0 then 1 else 0)) as := by
  have hs := step_suspend_late h
  have hr := step_resume_early (s := s.atDepth info.sirq (s.depth info.sirq + 1)) h v
  rw [run_cons, hs, Option.bind_some, run_cons, hr, Option.bind_some]
  by_cases hv : v = 0 <;> simp [hv]

/-- The depth grows by the number of resumes that read low. -/
theorem run_cycles {s : Device} {info : SilentModeInfo} (h : s.drvdata = some info)
    (levels : List Int) :
    run step s (cycles levels) =
      some (s.atDepth info.sirq (s.depth info.sirq + levels.count 0)) := by
  induction levels generalizing s with
  | nil => simp [cycles, run, Device.atDepth]
  | cons v levels ih =>
    have hcons : cycles (v :: levels) = .suspend_late :: .resume_early v :: cycles levels := rfl
    rw [hcons, run_cycle h, ih (by simpa using h)]
    by_cases hv : v = 0
    · simp [hv, Nat.add_assoc, Nat.add_comm]
    · simp [hv]

/-- After each resume that reads high the interrupt is enabled. -/
def Rearmed (s : Device) (levels : List Int) : Prop :=
  ∀ before v after, levels = before ++ v :: after → v ≠ 0 →
    ∃ t, run step s (cycles (before ++ [v])) = some t ∧ Armed t

/-- No resume reads high after one that has read low. -/
def LowToTheEnd (levels : List Int) : Prop :=
  ∀ before v after, levels = before ++ v :: after → v ≠ 0 → (0 : Int) ∉ before

/-- The monitor is armed again after every resume that reads high, if and only if none of these
comes after a resume that has read low. -/
theorem rearmed_iff {s : Device} (h : Armed s) (levels : List Int) :
    Rearmed s levels ↔ LowToTheEnd levels := by
  obtain ⟨info, hinfo, hd⟩ := h
  have hafter : ∀ (before : List Int) (v : Int), v ≠ 0 →
      ((∃ t, run step s (cycles (before ++ [v])) = some t ∧ Armed t) ↔ (0 : Int) ∉ before) := by
    intro before v hv
    have hrun := run_cycles hinfo (before ++ [v])
    rw [hd, List.count_append, List.count_singleton, beq_eq_false_iff_ne.mpr hv] at hrun
    rw [hrun, ← List.count_eq_zero]
    constructor
    · rintro ⟨t, ht, info', hinfo', hd'⟩
      cases ht
      cases hinfo.symm.trans hinfo'
      simpa using hd'
    · intro hcount
      exact ⟨_, rfl, info, hinfo, by simp [hcount]⟩
  constructor
  · intro hre before v after hl hv
    exact (hafter before v hv).mp (hre before v after hl hv)
  · intro hlow before v after hl hv
    exact (hafter before v hv).mpr (hlow before v after hl hv)

/-- A device whose probe has returned 0. -/
def probed : Device :=
  (silent_mode_probe ⟨none, fun _ => 1⟩ ⟨0, true, 12, true, 0, 40, 0, 0⟩).1

theorem armed_probed : Armed probed := ⟨⟨12, 40⟩, rfl, rfl⟩

theorem high_levels_rearm :
    LowToTheEnd [1, 1, 0] ∧ Rearmed probed [1, 1, 0] := by
  have hlow : LowToTheEnd [1, 1, 0] := by
    intro before v after hl hv
    rcases before with _ | ⟨a, _ | ⟨b, _ | ⟨c, before⟩⟩⟩
    · simp
    · simp at hl
      simp [← hl.1]
    · simp at hl
      simp [← hl.1, ← hl.2.1]
    · simp at hl
  exact ⟨hlow, (rearmed_iff armed_probed [1, 1, 0]).mpr hlow⟩

/-- The GPIO reads low at the first resume and high at the second one: the interrupt was disabled
twice and enabled once. -/
theorem one_low_resume_leaves_it_disabled :
    Armed probed ∧ (run step probed (cycles [0, 1])).map (fun s => s.depth 40) = some 1 ∧
      ¬ Rearmed probed [0, 1] := by
  refine ⟨armed_probed, rfl, fun h => ?_⟩
  obtain ⟨t, ht, info, hinfo, hd⟩ := h [0] 1 [] rfl (by decide)
  cases ht
  cases hinfo
  exact absurd hd (by decide)

/-! ## The probe -/

theorem silent_mode_init_monitor_armed {s : Device} {e : ProbeEnv} {info : SilentModeInfo}
    (hinfo : s.drvdata = some info) (h : 0 ≤ (silent_mode_init_monitor s e).2) :
    Armed (silent_mode_init_monitor s e).1 := by
  unfold silent_mode_init_monitor at h ⊢
  by_cases hv : e.valid = false
  · simp [hv, EINVAL] at h
  · by_cases hb : e.debounce < 0
    · simp [hv, hb] at h
      omega
    · by_cases hi : e.irq_request < 0
      · simp [hv, hb, hi] at h
        omega
      · refine ⟨{ info with sirq := e.sirq }, ?_, ?_⟩ <;> simp [hv, hb, hi, hinfo]

/-- A probe that returns no error leaves the monitor armed, or is one in a forced mode and has
no monitor. -/
theorem silent_mode_probe_armed {s : Device} {e : ProbeEnv} (h : 0 ≤ (silent_mode_probe s e).2) :
    (forced_mode_enforced e = true ∧ (silent_mode_probe s e).1 = s) ∨
      Armed (silent_mode_probe s e).1 := by
  by_cases hf : forced_mode_enforced e = true
  · exact Or.inl ⟨hf, by simp [silent_mode_probe, hf]⟩
  · by_cases ha : e.alloc_ok = false
    · simp [silent_mode_probe, hf, ha, ENOMEM] at h
    · refine Or.inr ?_
      simp only [silent_mode_probe, hf, ha] at h ⊢
      refine silent_mode_init_monitor_armed rfl ?_
      by_contra hneg
      simp [Int.not_le.mp hneg, EINVAL] at h

end silent_mode
