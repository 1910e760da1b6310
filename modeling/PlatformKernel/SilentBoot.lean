-- The silent mode of the boot (drivers/silent_boot.c) together with the monitor
-- of its GPIO: the command line chooses the mode, the monitor reports the GPIO,
-- and a program in user space may take the state over. A report and a store of
-- the user run beside each other. Other drivers ask to be told of the reports.
import PlatformKernel.SilentMode
import PlatformKernel.Lib.Kstrto
import PlatformKernel.Lib.NotifierChain

namespace silent_boot

open step_runs numerals

/-! ## The state of the silent mode -/

/-- The header linux/silent_mode.h is not part of the repository. The sign of a mode says whether
it is forced, so the modes themselves are positive. -/
structure SilentModeH where
  MODE_SILENT : Int
  MODE_NON_SILENT : Int
  MODE_GPIO_HIGH : BitVec 32
  MODE_GPIO_LOW : BitVec 32
  USERSPACE_CONTROL_DISABLED : Int
  USERSPACE_CONTROL_ENABLED : Int
  silent_pos : 0 < MODE_SILENT
  non_silent_pos : 0 < MODE_NON_SILENT
  disabled : USERSPACE_CONTROL_DISABLED = 0
  enabled : USERSPACE_CONTROL_ENABLED ≠ 0

/-- `struct notifier_block`, with its address. -/
structure NotifierBlock where
  addr : Nat
  priority : Int
  deriving DecidableEq, Repr

/-- The static variables. -/
structure Boot where
  silent_mode : Int
  pm_silentmode_userspace_cntrl : Int
  pm_silent_mode_enable : BitVec 32
  pm_silentmode_hw_state : BitVec 32
  pm_silentmode_chain : List NotifierBlock
  deriving DecidableEq, Repr

/-- `strnstr`: the first `len` bytes of the one text hold the other. The search ends with the text,
where that of the kernel looks at `len` bytes in any case. -/
def strnstr (s₁ s₂ : Text) (len : Nat) : Bool := (s₁.take len).tails.any (fun t => s₂.isPrefixOf t)

def isspace (c : UInt8) : Bool := c == 32 || (9 ≤ c && c ≤ 13) || c == 160

/-- `strstrip`. -/
def strstrip (s : Text) : Text := ((s.reverse.dropWhile isspace).reverse).dropWhile isspace

section

variable (h : SilentModeH)

/-- The mode that the text names. -/
def parse_mode (val : Text) : Int :=
  let len := (text "forcednonsilent").length
  let s := strstrip val
  if strnstr s (text "forcednonsilent") len then -h.MODE_NON_SILENT
  else if strnstr s (text "forcedsilent") len then -h.MODE_SILENT
  else if strnstr s (text "nonsilent") len then h.MODE_NON_SILENT
  else if strnstr s (text "silent") len then h.MODE_SILENT
  else h.MODE_NON_SILENT

def silent_mode_param_set (s : Boot) (val : Text) : Boot :=
  if s.silent_mode = 0 then { s with silent_mode := parse_mode h val } else s

/-- pm_silentmode_kernel_set behind its read of the control: the state changes only when user space
did not control it then. -/
def kernel_set_behind (s : Boot) (cntrl : Int) (val : BitVec 32) : Boot × Int :=
  if cntrl = 0 then ({ s with pm_silent_mode_enable := val }, 0)
  else (s, -h.USERSPACE_CONTROL_ENABLED)

def pm_silentmode_kernel_set (s : Boot) (val : BitVec 32) : Boot × Int :=
  kernel_set_behind h s s.pm_silentmode_userspace_cntrl val

def pm_silentmode_hw_state_set (s : Boot) (val : BitVec 32) : Boot :=
  { s with pm_silentmode_hw_state := val }

/-- What the driver gets is the state; its notifier is registered in the silent mode only. -/
def register_pm_silentmode_notifier (s : Boot) (nb : NotifierBlock) : Boot × BitVec 32 :=
  let lsilent := s.pm_silent_mode_enable
  if lsilent.toInt = h.MODE_SILENT then
    ({ s with
      pm_silentmode_chain :=
        notifier_chain.register NotifierBlock.priority nb s.pm_silentmode_chain },
      lsilent)
  else (s, lsilent)

def unregister_pm_silentmode_notifier (s : Boot) (nb : NotifierBlock) : Boot :=
  { s with pm_silentmode_chain := notifier_chain.unregister nb s.pm_silentmode_chain }

/-- The notifiers that are called, when each gives this answer. -/
def pm_silent_mode_cb_chain (s : Boot) (answer : NotifierBlock → BitVec 32) :
    List NotifierBlock :=
  notifier_chain.call answer s.pm_silentmode_chain

/-- The number that a program in user space stores. -/
def stored_value (buf : Text) : Option (BitVec 32) :=
  match kstrtoull 10 buf with
  | .ok n => some (BitVec.ofNat 32 n)
  | .error _ => none

/-- The static variables before the command line is read. -/
def initial : Boot :=
  ⟨0, h.USERSPACE_CONTROL_DISABLED, BitVec.ofInt 32 h.MODE_NON_SILENT, h.MODE_GPIO_LOW, []⟩

def pm_silentmode_init (s : Boot) : Boot :=
  let s : Boot := if s.silent_mode = 0 then { s with silent_mode := h.MODE_NON_SILENT } else s
  if s.silent_mode = h.MODE_SILENT ∨ s.silent_mode = -h.MODE_SILENT then
    (pm_silentmode_kernel_set h (pm_silentmode_hw_state_set s h.MODE_GPIO_HIGH) 1).1
  else (pm_silentmode_kernel_set h (pm_silentmode_hw_state_set s h.MODE_GPIO_LOW) 0).1

/-- The boot with the modes of the command line, in their order. -/
def booted (modes : List Text) : Boot :=
  pm_silentmode_init h (modes.foldl (silent_mode_param_set h) (initial h))

end

/-! ## The two drivers -/

/-- How far the work is with pm_silentmode_update, behind one of the reads and sets of the atomic
variables: pm_silentmode_kernel_set has read the control of user space, or the state is set, or the
hardware state too. -/
inductive Report
  | kernel_set (val : BitVec 32) (cntrl : Int)
  | hw_state_set (val : BitVec 32)
  | cb_chain
  deriving DecidableEq, Repr

/-- The state of the silent mode, the device of the monitor, whether the monitor has its interrupt
and whether its work is scheduled. The work makes one report at a time; `storing` are the values
whose store has taken the control and has yet to set the state. The last field holds the notifiers
that each report called. -/
structure System where
  boot : Boot
  monitor : silent_mode.Device
  irq_requested : Bool
  work : Bool
  report : Option Report
  storing : List (BitVec 32)
  called : List (List NotifierBlock)

inductive Act
  /-- A write to the parameter `mode`. -/
  | silent_mode_param_set (val : Text)
  /-- A program in user space stores a number, and pm_silentmode_user_update takes the control. -/
  | pm_silentmode_kernel_state_store (buf : Text)
  /-- pm_silentmode_user_update sets the state. -/
  | pm_silentmode_user_update (val : BitVec 32)
  | register_pm_silentmode_notifier (nb : NotifierBlock)
  | unregister_pm_silentmode_notifier (nb : NotifierBlock)
  /-- The probe of the monitor; the mode is pm_silentmode_get_mode. -/
  | silent_mode_probe (e : silent_mode.ProbeEnv)
  | silent_mode_irq
  /-- The work begins with a value of the GPIO, up to the read of the control. -/
  | silent_mode_handler_work_func (irq_trig : BitVec 32)
  /-- The work goes on with its report; `answer` is what the notifiers return. -/
  | pm_silentmode_update (answer : NotifierBlock → BitVec 32)
  | silent_mode_suspend_late
  | silent_mode_resume_early (gpio_value : Int)

/-- The interrupt of the monitor can come. -/
def System.armed (s : System) : Bool :=
  s.irq_requested &&
    match s.monitor.drvdata with
    | none => false
    | some info => s.monitor.depth info.sirq == 0

section

variable (h : SilentModeH)

/-- An error is given back to the program, and the state is as it was. -/
def pm_silentmode_kernel_state_store (s : System) (buf : Text) : System :=
  match stored_value buf with
  | some val =>
    { s with
      boot := { s.boot with pm_silentmode_userspace_cntrl := h.USERSPACE_CONTROL_ENABLED }
      storing := val :: s.storing }
  | none => s

/-- `pm_silentmode_user_update` behind the control. -/
def pm_silentmode_user_update (s : System) (val : BitVec 32) : Option System :=
  if val ∈ s.storing then
    some { s with
      boot := { s.boot with pm_silent_mode_enable := val }
      storing := s.storing.erase val }
  else none

/-- The work takes a value of the GPIO to pm_silentmode_update, which begins with the read of the
control. -/
def silent_mode_handler_work_func (s : System) (irq_trig : BitVec 32) : Option System :=
  if s.work ∧ s.report = none then
    some { s with
      work := false
      report := some (.kernel_set irq_trig s.boot.pm_silentmode_userspace_cntrl) }
  else none

/-- `pm_silentmode_update` by the monitor, one set after the other. The notifiers are called behind
them. -/
def pm_silentmode_update (s : System) (answer : NotifierBlock → BitVec 32) : Option System :=
  s.report.map (fun r =>
    match r with
    | .kernel_set val cntrl =>
      { s with
        boot := (kernel_set_behind h s.boot cntrl (val ^^^ 1)).1
        report := some (.hw_state_set val) }
    | .hw_state_set val =>
      { s with boot := pm_silentmode_hw_state_set s.boot (val ^^^ 1), report := some .cb_chain }
    | .cb_chain =>
      { s with called := s.called ++ [pm_silent_mode_cb_chain s.boot answer], report := none })

def step (s : System) : Act → Option System
  | .silent_mode_param_set val => some { s with boot := silent_mode_param_set h s.boot val }
  | .pm_silentmode_kernel_state_store buf =>
    some (pm_silentmode_kernel_state_store h s buf)
  | .pm_silentmode_user_update val => pm_silentmode_user_update s val
  | .register_pm_silentmode_notifier nb =>
    some { s with boot := (register_pm_silentmode_notifier h s.boot nb).1 }
  | .unregister_pm_silentmode_notifier nb =>
    some { s with boot := unregister_pm_silentmode_notifier s.boot nb }
  | .silent_mode_probe e =>
    if e.mode = s.boot.silent_mode ∧ s.monitor.drvdata = none then
      let r := silent_mode.silent_mode_probe s.monitor e
      some { s with
        monitor := r.1
        irq_requested := r.1.drvdata.isSome && decide (0 ≤ r.2) }
    else none
  | .silent_mode_irq => if s.armed then some { s with work := true } else none
  | .silent_mode_handler_work_func irq_trig => silent_mode_handler_work_func s irq_trig
  | .pm_silentmode_update answer => pm_silentmode_update h s answer
  | .silent_mode_suspend_late =>
    (silent_mode.step s.monitor .suspend_late).map (fun m => { s with monitor := m })
  | .silent_mode_resume_early gpio_value =>
    (silent_mode.step s.monitor (.resume_early gpio_value)).map (fun m => { s with monitor := m })

/-- The system after the boot, before the monitor is probed. No interrupt has been requested. -/
def start (modes : List Text) : System :=
  ⟨booted h modes, ⟨none, fun _ => 1⟩, false, false, none, [], []⟩

end

/-! ## The mode of the command line -/

/-- The text forces a mode. -/
def forced (val : Text) : Bool :=
  strnstr (strstrip val) (text "forcednonsilent") (text "forcednonsilent").length ||
    strnstr (strstrip val) (text "forcedsilent") (text "forcednonsilent").length

section

variable {h : SilentModeH}

theorem parse_mode_ne_zero (val : Text) : parse_mode h val ≠ 0 := by
  have hs := h.silent_pos
  have hn := h.non_silent_pos
  unfold parse_mode
  simp only
  split
  · omega
  · split
    · omega
    · split
      · omega
      · split <;> omega

theorem parse_mode_neg_iff (val : Text) : parse_mode h val < 0 ↔ forced val = true := by
  have hs := h.silent_pos
  have hn := h.non_silent_pos
  unfold parse_mode forced
  simp only [Bool.or_eq_true]
  split
  · rename_i h1
    simp only [h1, true_or, iff_true]
    omega
  · rename_i h1
    split
    · rename_i h2
      simp only [h2, or_true, iff_true]
      omega
    · rename_i h2
      simp only [h1, h2, or_self, Bool.false_eq_true, iff_false, not_lt]
      split
      · omega
      · split <;> omega

/-- The first mode that is set stays. -/
theorem foldl_param_set {s : Boot} (hs : s.silent_mode ≠ 0) (modes : List Text) :
    modes.foldl (silent_mode_param_set h) s = s := by
  induction modes with
  | nil => rfl
  | cons p ps ih => rw [List.foldl_cons, silent_mode_param_set, if_neg hs, ih]

@[simp] theorem kernel_set_silent_mode (s : Boot) (cntrl : Int) (val : BitVec 32) :
    (kernel_set_behind h s cntrl val).1.silent_mode = s.silent_mode := by
  unfold kernel_set_behind
  split <;> rfl

@[simp] theorem kernel_set_hw_state (s : Boot) (cntrl : Int) (val : BitVec 32) :
    (kernel_set_behind h s cntrl val).1.pm_silentmode_hw_state = s.pm_silentmode_hw_state := by
  unfold kernel_set_behind
  split <;> rfl

@[simp] theorem kernel_set_cntrl (s : Boot) (cntrl : Int) (val : BitVec 32) :
    (kernel_set_behind h s cntrl val).1.pm_silentmode_userspace_cntrl =
      s.pm_silentmode_userspace_cntrl := by
  unfold kernel_set_behind
  split <;> rfl

@[simp] theorem kernel_set_chain (s : Boot) (cntrl : Int) (val : BitVec 32) :
    (kernel_set_behind h s cntrl val).1.pm_silentmode_chain = s.pm_silentmode_chain := by
  unfold kernel_set_behind
  split <;> rfl

/-- The modes of the command line as they are when the initialisation begins. -/
theorem foldl_param_set_initial (modes : List Text) :
    modes.foldl (silent_mode_param_set h) (initial h) =
      { initial h with
        silent_mode := match modes with
          | [] => 0
          | p :: _ => parse_mode h p } := by
  cases modes with
  | nil => rfl
  | cons p ps =>
    have hp : silent_mode_param_set h (initial h) p =
        { initial h with silent_mode := parse_mode h p } := by
      simp [silent_mode_param_set, initial]
    rw [List.foldl_cons, hp]
    exact foldl_param_set (parse_mode_ne_zero p) ps

/-- The initialisation keeps a mode that is set. -/
theorem init_silent_mode (s : Boot) :
    (pm_silentmode_init h s).silent_mode =
      if s.silent_mode = 0 then h.MODE_NON_SILENT else s.silent_mode := by
  unfold pm_silentmode_init
  simp only
  split <;> split <;> simp [pm_silentmode_kernel_set, pm_silentmode_hw_state_set]

theorem init_cntrl (s : Boot) : (pm_silentmode_init h s).pm_silentmode_userspace_cntrl =
    s.pm_silentmode_userspace_cntrl := by
  unfold pm_silentmode_init
  simp only
  split <;> split <;> simp [pm_silentmode_kernel_set, pm_silentmode_hw_state_set]

/-- The first mode of the command line is the mode of the system. -/
theorem booted_silent_mode (modes : List Text) :
    (booted h modes).silent_mode = match modes with
      | [] => h.MODE_NON_SILENT
      | p :: _ => parse_mode h p := by
  rw [booted, init_silent_mode, foldl_param_set_initial]
  cases modes with
  | nil => rfl
  | cons p ps => simp [parse_mode_ne_zero]

theorem booted_cntrl (modes : List Text) : (booted h modes).pm_silentmode_userspace_cntrl = 0 := by
  rw [booted, init_cntrl, foldl_param_set_initial]
  exact h.disabled

end

/-! ## What a step can do -/

section

variable {h : SilentModeH} {s t : System} {a : Act}

/-- The value that the act sets the state to, when a program in user space stores one. -/
def Act.stored : Act → Option (BitVec 32)
  | .pm_silentmode_user_update val => some val
  | _ => none

/-- The value of the GPIO that the act reports. -/
def Act.reported : Act → Option (BitVec 32)
  | .silent_mode_handler_work_func irq_trig => some irq_trig
  | _ => none

/-- The step leaves what reports and stores work on. -/
structure Untouched (s t : System) : Prop where
  cntrl : t.boot.pm_silentmode_userspace_cntrl = s.boot.pm_silentmode_userspace_cntrl
  enable : t.boot.pm_silent_mode_enable = s.boot.pm_silent_mode_enable
  hw_state : t.boot.pm_silentmode_hw_state = s.boot.pm_silentmode_hw_state
  report : t.report = s.report
  storing : t.storing = s.storing
  called : t.called = s.called

/-- What a step does to reports and stores. -/
inductive Moved (h : SilentModeH) (s : System) : Act → System → Prop
  | store {buf : Text} {val : BitVec 32} :
    Moved h s (.pm_silentmode_kernel_state_store buf)
      { s with
        boot := { s.boot with pm_silentmode_userspace_cntrl := h.USERSPACE_CONTROL_ENABLED }
        storing := val :: s.storing }
  | update {val : BitVec 32} (hmem : val ∈ s.storing) :
    Moved h s (.pm_silentmode_user_update val)
      { s with
        boot := { s.boot with pm_silent_mode_enable := val }
        storing := s.storing.erase val }
  | work {val : BitVec 32} (hwork : s.work = true) (hnone : s.report = none) :
    Moved h s (.silent_mode_handler_work_func val)
      { s with
        work := false
        report := some (.kernel_set val s.boot.pm_silentmode_userspace_cntrl) }
  | kernel_set {val : BitVec 32} {cntrl : Int} {answer : NotifierBlock → BitVec 32}
      (hreport : s.report = some (.kernel_set val cntrl)) :
    Moved h s (.pm_silentmode_update answer)
      { s with
        boot := (kernel_set_behind h s.boot cntrl (val ^^^ 1)).1
        report := some (.hw_state_set val) }
  | hw_state_set {val : BitVec 32} {answer : NotifierBlock → BitVec 32}
      (hreport : s.report = some (.hw_state_set val)) :
    Moved h s (.pm_silentmode_update answer)
      { s with boot := pm_silentmode_hw_state_set s.boot (val ^^^ 1), report := some .cb_chain }
  | cb_chain {answer : NotifierBlock → BitVec 32} (hreport : s.report = some .cb_chain) :
    Moved h s (.pm_silentmode_update answer)
      { s with called := s.called ++ [pm_silent_mode_cb_chain s.boot answer], report := none }
  | other {a : Act} {t : System} (hstored : a.stored = none) (hreported : a.reported = none)
      (hsame : Untouched s t) : Moved h s a t

theorem step_moved (ht : step h s a = some t) : Moved h s a t := by
  cases a with
  | silent_mode_param_set val =>
    cases ht
    refine .other rfl rfl ?_
    constructor <;> simp only [silent_mode_param_set] <;> split <;> rfl
  | pm_silentmode_kernel_state_store buf =>
    cases ht
    unfold pm_silentmode_kernel_state_store
    split
    · exact .store
    · exact .other rfl rfl ⟨rfl, rfl, rfl, rfl, rfl, rfl⟩
  | pm_silentmode_user_update val =>
    simp only [step, pm_silentmode_user_update] at ht
    split at ht
    · rename_i hmem
      cases ht
      exact .update hmem
    · cases ht
  | register_pm_silentmode_notifier nb =>
    cases ht
    refine .other rfl rfl ?_
    constructor <;> simp only [register_pm_silentmode_notifier] <;> split <;> rfl
  | unregister_pm_silentmode_notifier nb =>
    cases ht
    exact .other rfl rfl ⟨rfl, rfl, rfl, rfl, rfl, rfl⟩
  | silent_mode_probe e =>
    simp only [step] at ht
    split at ht
    · cases ht
      exact .other rfl rfl ⟨rfl, rfl, rfl, rfl, rfl, rfl⟩
    · cases ht
  | silent_mode_irq =>
    simp only [step] at ht
    split at ht
    · cases ht
      exact .other rfl rfl ⟨rfl, rfl, rfl, rfl, rfl, rfl⟩
    · cases ht
  | silent_mode_handler_work_func v =>
    simp only [step, silent_mode_handler_work_func] at ht
    split at ht
    · rename_i hgo
      cases ht
      exact .work hgo.1 hgo.2
    · cases ht
  | pm_silentmode_update answer =>
    obtain ⟨r, hr, rfl⟩ := Option.map_eq_some_iff.mp ht
    cases r with
    | kernel_set val cntrl => exact .kernel_set hr
    | hw_state_set val => exact .hw_state_set hr
    | cb_chain => exact .cb_chain hr
  | silent_mode_suspend_late =>
    obtain ⟨m, _, rfl⟩ := Option.map_eq_some_iff.mp ht
    exact .other rfl rfl ⟨rfl, rfl, rfl, rfl, rfl, rfl⟩
  | silent_mode_resume_early v =>
    obtain ⟨m, _, rfl⟩ := Option.map_eq_some_iff.mp ht
    exact .other rfl rfl ⟨rfl, rfl, rfl, rfl, rfl, rfl⟩

/-- A mode that is set stays. -/
theorem step_mode (ht : step h s a = some t) (hne : s.boot.silent_mode ≠ 0) :
    t.boot.silent_mode = s.boot.silent_mode := by
  cases a with
  | silent_mode_param_set val =>
    cases ht
    simp [silent_mode_param_set, hne]
  | pm_silentmode_kernel_state_store buf =>
    cases ht
    unfold pm_silentmode_kernel_state_store
    split <;> rfl
  | pm_silentmode_user_update val =>
    simp only [step, pm_silentmode_user_update] at ht
    split at ht <;> cases ht
    rfl
  | register_pm_silentmode_notifier nb =>
    cases ht
    simp only [register_pm_silentmode_notifier]
    split <;> rfl
  | unregister_pm_silentmode_notifier nb => cases ht; rfl
  | silent_mode_probe e =>
    simp only [step] at ht
    split at ht <;> cases ht
    rfl
  | silent_mode_irq =>
    simp only [step] at ht
    split at ht <;> cases ht
    rfl
  | silent_mode_handler_work_func v =>
    simp only [step, silent_mode_handler_work_func] at ht
    split at ht <;> cases ht
    rfl
  | pm_silentmode_update answer =>
    obtain ⟨r, _, rfl⟩ := Option.map_eq_some_iff.mp ht
    cases r <;> simp [pm_silentmode_hw_state_set]
  | silent_mode_suspend_late =>
    obtain ⟨m, _, rfl⟩ := Option.map_eq_some_iff.mp ht
    rfl
  | silent_mode_resume_early v =>
    obtain ⟨m, _, rfl⟩ := Option.map_eq_some_iff.mp ht
    rfl

/-! ## The state after a run -/

/-- The values that were stored, oldest first. -/
def stores (acts : List Act) : List (BitVec 32) := acts.filterMap Act.stored

/-- The values of the GPIO that were reported, oldest first. -/
def reports (acts : List Act) : List (BitVec 32) := acts.filterMap Act.reported

@[simp] theorem stores_snoc (pre : List Act) (a : Act) :
    stores (pre ++ [a]) = stores pre ++ a.stored.toList := by
  unfold stores
  rw [List.filterMap_append]
  rfl

@[simp] theorem reports_snoc (pre : List Act) (a : Act) :
    reports (pre ++ [a]) = reports pre ++ a.reported.toList := by
  unfold reports
  rw [List.filterMap_append]
  rfl

/-- What the last of the reported values leaves, and the value of the boot when there is none. -/
def shown (boot : BitVec 32) (values : List (BitVec 32)) : BitVec 32 :=
  (values.getLast?.map (fun v => v ^^^ 1)).getD boot

@[simp] theorem shown_snoc (boot v : BitVec 32) (values : List (BitVec 32)) :
    shown boot (values ++ [v]) = v ^^^ 1 := by
  simp [shown]

/-- The state that a run should leave: the last value stored in user space; without one, the
opposite of the last value of the GPIO; without one, that of the boot. -/
structure Follows (h : SilentModeH) (modes : List Text) (acts : List Act) (s : System) : Prop where
  hw_state : s.boot.pm_silentmode_hw_state =
    shown (booted h modes).pm_silentmode_hw_state (reports acts)
  enable : s.boot.pm_silent_mode_enable =
    (stores acts).getLast?.getD (shown (booted h modes).pm_silent_mode_enable (reports acts))

/-- The report has seen that user space does not control the state, and has yet to set it. -/
def Report.pending : Report → Bool
  | .kernel_set _ cntrl => cntrl == 0
  | _ => false

/-- No program in user space sets the state between a report's read of the control and its set. -/
def NoneBetween (s : System) : Act → Prop
  | .pm_silentmode_user_update _ => s.report.all (fun r => !r.pending) = true
  | _ => True

/-- The values of the reports that have yet to set the state. -/
def unset : Option Report → List (BitVec 32)
  | some (.kernel_set val _) => [val]
  | _ => []

/-- The values of the reports that have yet to set the hardware state. -/
def unshown : Option Report → List (BitVec 32)
  | some (.kernel_set val _) => [val]
  | some (.hw_state_set val) => [val]
  | _ => []

/-- What a run has left, while reports and stores are on their way. -/
structure Kept (h : SilentModeH) (modes : List Text) (acts : List Act) (s : System) : Prop where
  cntrl : s.boot.pm_silentmode_userspace_cntrl =
    if stores acts = [] ∧ s.storing = [] then 0 else h.USERSPACE_CONTROL_ENABLED
  seen : ∀ val cntrl, s.report = some (.kernel_set val cntrl) → cntrl = 0 → stores acts = []
  free : ∀ val cntrl, s.report = some (.kernel_set val cntrl) → stores acts = [] → s.storing = [] →
    cntrl = 0
  hw_state : ∃ rs, reports acts = rs ++ unshown s.report ∧
    s.boot.pm_silentmode_hw_state = shown (booted h modes).pm_silentmode_hw_state rs
  stored : ∀ val, (stores acts).getLast? = some val → s.boot.pm_silent_mode_enable = val
  reported : stores acts = [] → s.storing = [] → ∃ rs, reports acts = rs ++ unset s.report ∧
    s.boot.pm_silent_mode_enable = shown (booted h modes).pm_silent_mode_enable rs

variable {modes : List Text} {pre acts : List Act}

theorem kept_start : Kept h modes [] (start h modes) := by
  refine ⟨booted_cntrl modes, ?_, ?_, ⟨[], rfl, rfl⟩, ?_, fun _ _ => ⟨[], rfl, rfl⟩⟩
  · intro val cntrl hr
    cases hr
  · intro val cntrl hr
    cases hr
  · intro val hv
    cases hv

theorem Kept.step (hk : Kept h modes pre s) (hc : NoneBetween s a) (hm : Moved h s a t) :
    Kept h modes (pre ++ [a]) t := by
  obtain ⟨hcntrl, hseen, hfree, ⟨rs, hrs, hhw⟩, hstored, hreported⟩ := hk
  cases hm with
  | @store buf val =>
    have hs : stores (pre ++ [.pm_silentmode_kernel_state_store buf]) = stores pre := by
      simp [Act.stored]
    have hr : reports (pre ++ [.pm_silentmode_kernel_state_store buf]) = reports pre := by
      simp [Act.reported]
    constructor
    · simp
    · rw [hs]
      exact hseen
    · simp
    · rw [hr]
      exact ⟨rs, hrs, hhw⟩
    · rw [hs]
      exact hstored
    · simp
  | @update val hmem =>
    have hs : stores (pre ++ [.pm_silentmode_user_update val]) = stores pre ++ [val] := by
      simp [Act.stored]
    have hr : reports (pre ++ [.pm_silentmode_user_update val]) = reports pre := by
      simp [Act.reported]
    constructor
    · -- the store has taken the control
      have hne : s.storing ≠ [] := List.ne_nil_of_mem hmem
      rw [hs, hcntrl]
      simp [hne]
    · intro v cntrl hrep hzero
      change s.report = _ at hrep
      simp [NoneBetween, hrep, Report.pending, hzero] at hc
    · rw [hs]
      simp
    · rw [hr]
      exact ⟨rs, hrs, hhw⟩
    · rw [hs]
      simp
    · rw [hs]
      simp
  | @work val hwork hnone =>
    have hs : stores (pre ++ [.silent_mode_handler_work_func val]) = stores pre := by
      simp [Act.stored]
    have hr : reports (pre ++ [.silent_mode_handler_work_func val]) = reports pre ++ [val] := by
      simp [Act.reported]
    constructor
    · rw [hs]
      exact hcntrl
    · rintro v cntrl ⟨⟩ hzero
      rw [hs]
      by_contra hne
      rw [hcntrl, if_neg (fun hand => hne hand.1)] at hzero
      exact h.enabled hzero
    · rintro v cntrl ⟨⟩ hnil hempty
      rw [hs] at hnil
      rw [hcntrl, if_pos ⟨hnil, hempty⟩]
    · rw [hnone] at hrs
      refine ⟨rs, ?_, hhw⟩
      rw [hr, hrs]
      simp [unshown]
    · rw [hs]
      exact hstored
    · rw [hs]
      intro hnil hempty
      obtain ⟨rs, hrs, hen⟩ := hreported hnil hempty
      rw [hnone] at hrs
      refine ⟨rs, ?_, hen⟩
      rw [hr, hrs]
      simp [unset]
  | @kernel_set val cntrl answer hrep =>
    have hs : stores (pre ++ [.pm_silentmode_update answer]) = stores pre := by
      simp [Act.stored]
    have hr : reports (pre ++ [.pm_silentmode_update answer]) = reports pre := by
      simp [Act.reported]
    constructor
    · rw [hs]
      simpa using hcntrl
    · rintro v c ⟨⟩
    · rintro v c ⟨⟩
    · rw [hrep] at hrs
      refine ⟨rs, hr.trans hrs, ?_⟩
      simpa using hhw
    · rw [hs]
      intro v hv
      have hne : cntrl ≠ 0 := by
        intro hzero
        rw [hseen val cntrl hrep hzero] at hv
        cases hv
      simpa [kernel_set_behind, hne] using hstored v hv
    · rw [hs]
      intro hnil hempty
      obtain ⟨rs, hrs, _⟩ := hreported hnil hempty
      rw [hrep] at hrs
      refine ⟨rs ++ [val], by rw [hr, hrs]; simp [unset], ?_⟩
      simp [kernel_set_behind, hfree val cntrl hrep hnil hempty]
  | @hw_state_set val answer hrep =>
    have hs : stores (pre ++ [.pm_silentmode_update answer]) = stores pre := by
      simp [Act.stored]
    have hr : reports (pre ++ [.pm_silentmode_update answer]) = reports pre := by
      simp [Act.reported]
    constructor
    · rw [hs]
      exact hcntrl
    · rintro v c ⟨⟩
    · rintro v c ⟨⟩
    · rw [hrep] at hrs
      refine ⟨rs ++ [val], by rw [hr, hrs]; simp [unshown], ?_⟩
      simp [pm_silentmode_hw_state_set]
    · rw [hs]
      exact hstored
    · rw [hs]
      intro hnil hempty
      obtain ⟨rs, hrs, hen⟩ := hreported hnil hempty
      rw [hrep] at hrs
      exact ⟨rs, hr.trans hrs, hen⟩
  | @cb_chain answer hrep =>
    have hs : stores (pre ++ [.pm_silentmode_update answer]) = stores pre := by
      simp [Act.stored]
    have hr : reports (pre ++ [.pm_silentmode_update answer]) = reports pre := by
      simp [Act.reported]
    rw [hrep] at hrs hreported
    constructor
    · rw [hs]
      exact hcntrl
    · rintro v c ⟨⟩
    · rintro v c ⟨⟩
    · exact ⟨rs, hr.trans hrs, hhw⟩
    · rw [hs]
      exact hstored
    · rw [hs, hr]
      exact hreported
  | other hst hrp hsame =>
    obtain ⟨h1, h2, h3, h4, h5, _⟩ := hsame
    have hs : stores (pre ++ [a]) = stores pre := by simp [hst]
    have hr : reports (pre ++ [a]) = reports pre := by simp [hrp]
    constructor
    · rw [hs, h1, h5]
      exact hcntrl
    · rw [hs, h4]
      exact hseen
    · rw [hs, h4, h5]
      exact hfree
    · rw [hr, h3, h4]
      exact ⟨rs, hrs, hhw⟩
    · rw [hs, h2]
      exact hstored
    · rw [hs, hr, h2, h4, h5]
      exact hreported

/-- After every run in which no store comes between a report's read of the control and its set,
when no report and no store is on its way, the hardware state is that of the last report, and the
state is the last one stored in user space or, while there is none, that of the last report. -/
theorem the_user_then_the_gpio (hm : Meets (step h) NoneBetween (start h modes) acts)
    (hr : run (step h) (start h modes) acts = some s) (hreport : s.report = none)
    (hstoring : s.storing = []) : Follows h modes acts s := by
  have hk : Kept h modes acts s := by
    refine trace_inv_of_meets (Kept h modes) kept_start ?_ hm hr
    intro pre s a t _ hk hc ht
    exact hk.step hc (step_moved ht)
  obtain ⟨rs, hrs, hhw⟩ := hk.hw_state
  rw [hreport] at hrs
  simp only [unshown, List.append_nil] at hrs
  refine ⟨by rw [hhw, hrs], ?_⟩
  rcases hlast : (stores acts).getLast? with _ | val
  · obtain ⟨rs, hrs, hen⟩ := hk.reported (List.getLast?_eq_none_iff.mp hlast) hstoring
    rw [hreport] at hrs
    simp only [unset, List.append_nil] at hrs
    rw [hen, hrs]
    rfl
  · exact hk.stored val hlast

/-! ## Forced modes -/

/-- The monitor has no interrupt and no work, and has reported nothing. -/
structure Unmonitored (s : System) : Prop where
  mode : s.boot.silent_mode < 0
  drvdata : s.monitor.drvdata = none
  irq : s.irq_requested = false
  work : s.work = false
  report : s.report = none

theorem Unmonitored.step (hs : Unmonitored s) (ht : step h s a = some t) : Unmonitored t := by
  have hmode : t.boot.silent_mode < 0 := by
    rw [step_mode ht hs.mode.ne]
    exact hs.mode
  have hsame : t.monitor = s.monitor → t.irq_requested = s.irq_requested → t.work = s.work →
      t.report = s.report → Unmonitored t := by
    intro h1 h2 h3 h4
    exact ⟨hmode, h1 ▸ hs.drvdata, h2 ▸ hs.irq, h3 ▸ hs.work, h4 ▸ hs.report⟩
  cases a with
  | silent_mode_param_set val => cases ht; exact hsame rfl rfl rfl rfl
  | pm_silentmode_kernel_state_store buf =>
    cases ht
    unfold pm_silentmode_kernel_state_store at hsame ⊢
    split at hsame <;> exact hsame rfl rfl rfl rfl
  | pm_silentmode_user_update val =>
    simp only [silent_boot.step, pm_silentmode_user_update] at ht
    split at ht <;> cases ht
    exact hsame rfl rfl rfl rfl
  | register_pm_silentmode_notifier nb => cases ht; exact hsame rfl rfl rfl rfl
  | unregister_pm_silentmode_notifier nb => cases ht; exact hsame rfl rfl rfl rfl
  | silent_mode_probe e =>
    simp only [silent_boot.step] at ht
    split at ht
    · rename_i he
      cases ht
      -- the probe of a forced mode ends before it asks for anything
      have hprobe : silent_mode.silent_mode_probe s.monitor e = (s.monitor, 0) := by
        have hf : silent_mode.forced_mode_enforced e = true := by
          simp [silent_mode.forced_mode_enforced, he.1, hs.mode]
        simp [silent_mode.silent_mode_probe, hf]
      refine ⟨hmode, ?_, ?_, hs.work, hs.report⟩
      · simp [hprobe, hs.drvdata]
      · simp [hprobe, hs.drvdata]
    · cases ht
  | silent_mode_irq =>
    simp only [silent_boot.step, System.armed, hs.irq, Bool.false_and, Bool.false_eq_true,
      if_false] at ht
    cases ht
  | silent_mode_handler_work_func v =>
    simp only [silent_boot.step, silent_mode_handler_work_func, hs.work, Bool.false_eq_true,
      false_and, if_false] at ht
    cases ht
  | pm_silentmode_update answer =>
    simp only [silent_boot.step, pm_silentmode_update, hs.report, Option.map_none] at ht
    cases ht
  | silent_mode_suspend_late =>
    obtain ⟨m, hm, rfl⟩ := Option.map_eq_some_iff.mp ht
    simp [silent_mode.step, silent_mode.silent_mode_suspend_late,
      silent_mode.silent_mode_disable_monitor, silent_mode.logged, hs.drvdata] at hm
  | silent_mode_resume_early v =>
    obtain ⟨m, hm, rfl⟩ := Option.map_eq_some_iff.mp ht
    simp [silent_mode.step, silent_mode.silent_mode_resume_early,
      silent_mode.silent_mode_enable_monitor, silent_mode.logged, hs.drvdata] at hm

/-- Without work and without a report, only a store changes the state. -/
theorem Unmonitored.moved (hs : Unmonitored s) (hm : Moved h s a t) :
    t.boot.pm_silentmode_hw_state = s.boot.pm_silentmode_hw_state ∧ t.called = s.called ∧
      t.boot.pm_silent_mode_enable = a.stored.getD s.boot.pm_silent_mode_enable := by
  cases hm with
  | store => exact ⟨rfl, rfl, rfl⟩
  | update => exact ⟨rfl, rfl, rfl⟩
  | work hwork => exact absurd hwork (by simp [hs.work])
  | kernel_set hrep => exact absurd hrep (by simp [hs.report])
  | hw_state_set hrep => exact absurd hrep (by simp [hs.report])
  | cb_chain hrep => exact absurd hrep (by simp [hs.report])
  | other hst _ hsame =>
    refine ⟨hsame.hw_state, hsame.called, ?_⟩
    rw [hst, hsame.enable]
    rfl

/-- When the first mode of the command line is a forced one, no run reports the GPIO: the hardware
state stays that of the boot, no notifier is called, and only user space changes the state. -/
theorem a_forced_mode_is_left_to_the_user {p : Text} {ps : List Text} (hp : forced p = true)
    (hr : run (step h) (start h (p :: ps)) acts = some s) :
    s.boot.pm_silentmode_hw_state = (booted h (p :: ps)).pm_silentmode_hw_state ∧ s.called = [] ∧
      s.boot.pm_silent_mode_enable =
        (stores acts).getLast?.getD (booted h (p :: ps)).pm_silent_mode_enable := by
  have hmode : (booted h (p :: ps)).silent_mode < 0 := by
    rw [booted_silent_mode]
    exact (parse_mode_neg_iff p).mpr hp
  have hI : Unmonitored s ∧
      s.boot.pm_silentmode_hw_state = (booted h (p :: ps)).pm_silentmode_hw_state ∧
      s.called = [] ∧ s.boot.pm_silent_mode_enable =
        (stores acts).getLast?.getD (booted h (p :: ps)).pm_silent_mode_enable := by
    refine run_trace_inv (fun acts s => Unmonitored s ∧
      s.boot.pm_silentmode_hw_state = (booted h (p :: ps)).pm_silentmode_hw_state ∧
      s.called = [] ∧ s.boot.pm_silent_mode_enable =
        (stores acts).getLast?.getD (booted h (p :: ps)).pm_silent_mode_enable) ?_ ?_ hr
    · exact ⟨⟨hmode, rfl, rfl, rfl, rfl⟩, rfl, rfl, rfl⟩
    · rintro pre s a t _ ⟨hs, hhw, hcalled, hen⟩ ht
      obtain ⟨hhw', hcalled', hen'⟩ := hs.moved (step_moved ht)
      refine ⟨hs.step ht, hhw'.trans hhw, hcalled'.trans hcalled, ?_⟩
      rw [hen', hen, stores_snoc]
      rcases a.stored with _ | v
      · simp
      · simp
  exact hI.2

/-! ## The notifiers -/

/-- The act registers the block, or takes it off the chain. -/
def Act.concerns (nb : NotifierBlock) : Act → Prop
  | .register_pm_silentmode_notifier n => n = nb
  | .unregister_pm_silentmode_notifier n => n = nb
  | _ => False

theorem mem_chain_step {nb : NotifierBlock} (hc : ¬ a.concerns nb) (ht : step h s a = some t) :
    nb ∈ t.boot.pm_silentmode_chain ↔ nb ∈ s.boot.pm_silentmode_chain := by
  cases a with
  | silent_mode_param_set val =>
    cases ht
    simp only [silent_mode_param_set]
    split <;> rfl
  | pm_silentmode_kernel_state_store buf =>
    cases ht
    unfold pm_silentmode_kernel_state_store
    split <;> rfl
  | pm_silentmode_user_update val =>
    simp only [step, pm_silentmode_user_update] at ht
    split at ht <;> cases ht
    rfl
  | register_pm_silentmode_notifier n =>
    cases ht
    have hne : nb ≠ n := fun he => hc he.symm
    simp only [register_pm_silentmode_notifier]
    split
    · simp [hne]
    · rfl
  | unregister_pm_silentmode_notifier n =>
    cases ht
    have hne : nb ≠ n := fun he => hc he.symm
    simp [unregister_pm_silentmode_notifier, hne]
  | silent_mode_probe e =>
    simp only [step] at ht
    split at ht <;> cases ht
    rfl
  | silent_mode_irq =>
    simp only [step] at ht
    split at ht <;> cases ht
    rfl
  | silent_mode_handler_work_func v =>
    simp only [step, silent_mode_handler_work_func] at ht
    split at ht <;> cases ht
    rfl
  | pm_silentmode_update answer =>
    obtain ⟨r, _, rfl⟩ := Option.map_eq_some_iff.mp ht
    cases r <;> simp [pm_silentmode_hw_state_set]
  | silent_mode_suspend_late =>
    obtain ⟨m, _, rfl⟩ := Option.map_eq_some_iff.mp ht
    rfl
  | silent_mode_resume_early v =>
    obtain ⟨m, _, rfl⟩ := Option.map_eq_some_iff.mp ht
    rfl

theorem mem_chain_run {nb : NotifierBlock} (hc : ∀ a ∈ acts, ¬ a.concerns nb)
    (hr : run (step h) s acts = some t) :
    nb ∈ t.boot.pm_silentmode_chain ↔ nb ∈ s.boot.pm_silentmode_chain := by
  induction acts generalizing s with
  | nil => cases hr; rfl
  | cons a as ih =>
    obtain ⟨u, hu, hr⟩ := Option.bind_eq_some_iff.mp hr
    rw [ih (fun b hb => hc b (List.mem_cons_of_mem _ hb)) hr]
    exact mem_chain_step (hc a List.mem_cons_self) hu

theorem mem_chain_register (b : Boot) (nb : NotifierBlock) :
    nb ∈ (register_pm_silentmode_notifier h b nb).1.pm_silentmode_chain ↔
      (register_pm_silentmode_notifier h b nb).2.toInt = h.MODE_SILENT ∨
        nb ∈ b.pm_silentmode_chain := by
  by_cases hl : b.pm_silent_mode_enable.toInt = h.MODE_SILENT
  · simp [register_pm_silentmode_notifier, hl]
  · simp [register_pm_silentmode_notifier, hl]

/-- A report that comes to its notifiers after a driver has registered, and before it goes, calls
the driver exactly when the state that the driver was told is the silent mode, or it was on the
chain before, and no notifier before it on the chain stops the report. -/
theorem a_driver_told_of_silence_is_called {u : System} {nb : NotifierBlock}
    {answer : NotifierBlock → BitVec 32} (hc : ∀ a ∈ acts, ¬ a.concerns nb)
    (hr : run (step h) s (.register_pm_silentmode_notifier nb :: acts) = some t)
    (hcalls : t.report = some .cb_chain) (hu : step h t (.pm_silentmode_update answer) = some u) :
    ∃ l, u.called = t.called ++ [l] ∧
      (nb ∈ l ↔ ((register_pm_silentmode_notifier h s.boot nb).2.toInt = h.MODE_SILENT ∨
        nb ∈ s.boot.pm_silentmode_chain) ∧
        notifier_chain.LetThrough answer t.boot.pm_silentmode_chain nb) := by
  rw [run_cons] at hr
  have hchain := mem_chain_run hc hr
  simp only [step, pm_silentmode_update, hcalls, Option.map_some, Option.some.injEq] at hu
  subst hu
  refine ⟨pm_silent_mode_cb_chain t.boot answer, rfl, ?_⟩
  unfold pm_silent_mode_cb_chain
  rw [notifier_chain.mem_call_iff, hchain, mem_chain_register]

end

/-! ## A header and two runs -/

theorem two_pos : (0 : Int) < 2 := by decide

/-- One choice of the values of the header. -/
def sampleH : SilentModeH where
  MODE_SILENT := 1
  MODE_NON_SILENT := 2
  MODE_GPIO_HIGH := 1
  MODE_GPIO_LOW := 0
  USERSPACE_CONTROL_DISABLED := 0
  USERSPACE_CONTROL_ENABLED := 1
  silent_pos := Int.one_pos
  non_silent_pos := two_pos
  disabled := rfl
  enabled := Int.one_ne_zero

/-- A notifier that answers 0, as all do here. -/
def driver : NotifierBlock := ⟨7, 0⟩

/-- A report of the value, from the interrupt to the notifiers. -/
def gpio_report (irq_trig : BitVec 32) : List Act :=
  [.silent_mode_irq, .silent_mode_handler_work_func irq_trig, .pm_silentmode_update (fun _ => 0),
    .pm_silentmode_update (fun _ => 0), .pm_silentmode_update (fun _ => 0)]

/-- The monitor is probed and a driver registers. -/
def monitored : List Act :=
  [.silent_mode_probe ⟨1, true, 12, true, 0, 40, 0, 0⟩, .register_pm_silentmode_notifier driver]

/-- The GPIO falls, the user takes over, and the GPIO rises. -/
def takeover : List Act :=
  monitored ++ gpio_report 1 ++ [.pm_silentmode_kernel_state_store (text "5\n")] ++
    [.pm_silentmode_user_update 5] ++ gpio_report 0

theorem takeover_follows :
    ∃ s, run (step sampleH) (start sampleH [text "silent"]) takeover = some s ∧
      Follows sampleH [text "silent"] takeover s ∧ s.boot.pm_silentmode_hw_state = 1 ∧
      s.boot.pm_silent_mode_enable = 5 := by
  have hreport : ∀ (v : BitVec 32) (s : System),
      Meets (step sampleH) NoneBetween s (gpio_report v) := by
    intro v s
    apply meets_of_forall
    intro a ha s
    simp only [gpio_report, List.mem_cons, List.not_mem_nil, or_false] at ha
    rcases ha with rfl | rfl | rfl | rfl | rfl <;> trivial
  have hmonitored : ∀ s : System, Meets (step sampleH) NoneBetween s monitored := by
    intro s
    apply meets_of_forall
    intro a ha s
    simp only [monitored, List.mem_cons, List.not_mem_nil, or_false] at ha
    rcases ha with rfl | rfl <;> trivial
  have hm : Meets (step sampleH) NoneBetween (start sampleH [text "silent"]) takeover := by
    refine Meets.append ?_ rfl (hreport 0 _)
    refine Meets.append ?_ rfl (Meets.cons rfl rfl trivial)
    refine Meets.append ?_ rfl (Meets.cons trivial rfl trivial)
    exact Meets.append (hmonitored _) rfl (hreport 1 _)
  obtain ⟨s, hs⟩ : ∃ s, run (step sampleH) (start sampleH [text "silent"]) takeover = some s :=
    ⟨_, rfl⟩
  refine ⟨s, hs, the_user_then_the_gpio hm hs ?_ ?_, ?_⟩
  all_goals
    cases hs
    decide

/-- A store between the read and the set of a report is lost. -/
example : (run (step sampleH) (start sampleH [text "silent"])
    (monitored ++ (gpio_report 1).take 2 ++ [.pm_silentmode_kernel_state_store (text "5\n"),
      .pm_silentmode_user_update 5] ++ (gpio_report 1).drop 2)).map
        (fun s => s.boot.pm_silent_mode_enable) = some 0 := by
  decide

/-- The probe of a forced mode, and a program that stores a state. -/
def forcedRun : List Act :=
  [.silent_mode_probe ⟨-1, true, 12, true, 0, 40, 0, 0⟩, .register_pm_silentmode_notifier driver,
    .silent_mode_param_set (text "nonsilent"), .pm_silentmode_kernel_state_store (text "0"),
    .pm_silentmode_user_update 0]

theorem forced_run_keeps_the_hardware_state :
    ∃ s, run (step sampleH) (start sampleH [text " forcedsilent", text "nonsilent"]) forcedRun =
        some s ∧ s.boot.pm_silentmode_chain = [driver] ∧
      s.boot.pm_silentmode_hw_state = 1 ∧ s.called = [] ∧ s.boot.pm_silent_mode_enable = 0 := by
  obtain ⟨s, hs⟩ : ∃ s, run (step sampleH)
      (start sampleH [text " forcedsilent", text "nonsilent"]) forcedRun = some s := ⟨_, rfl⟩
  have h := a_forced_mode_is_left_to_the_user (by decide) hs
  refine ⟨s, hs, ?_, h.1, h.2.1, h.2.2⟩
  cases hs
  rfl

/-- The driver that was told of the silent mode hears of the second report too. -/
theorem takeover_calls_its_driver :
    ∃ s t u l, run (step sampleH) (start sampleH [text "silent"]) (takeover.take 1) = some s ∧
      run (step sampleH) s ((takeover.drop 1).take 12) = some t ∧
      step sampleH t (.pm_silentmode_update (fun _ => 0)) = some u ∧ u.called = t.called ++ [l] ∧
      driver ∈ l := by
  obtain ⟨s, hs⟩ : ∃ s, run (step sampleH) (start sampleH [text "silent"]) (takeover.take 1) =
      some s := ⟨_, rfl⟩
  obtain ⟨t, ht⟩ : ∃ t, run (step sampleH) s ((takeover.drop 1).take 12) = some t := by
    cases hs
    exact ⟨_, rfl⟩
  have hcalls : t.report = some .cb_chain := by
    cases hs
    cases ht
    rfl
  obtain ⟨u, hu⟩ : ∃ u, step sampleH t (.pm_silentmode_update (fun _ => 0)) = some u := by
    cases hs
    cases ht
    exact ⟨_, rfl⟩
  have hc : ∀ a ∈ ((takeover.drop 1).take 12).drop 1, ¬ a.concerns driver := by
    simp [takeover, monitored, gpio_report, Act.concerns]
  obtain ⟨l, hl, hmem⟩ := a_driver_told_of_silence_is_called hc ht hcalls hu
  refine ⟨s, t, u, l, hs, ht, hu, hl, hmem.mpr ⟨Or.inl ?_, ?_⟩⟩
  · cases hs
    rfl
  · simp [notifier_chain.LetThrough]

end silent_boot
