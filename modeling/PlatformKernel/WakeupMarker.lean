-- The marker of the last wake-up (drivers/boot_marker.c): the PM notifier
-- destroys it behind every suspend, and places it again with the time since the
-- end of the deep sleep in its name.
import PlatformKernel.BootMarkers

namespace boot_marker.wakeup

open step_runs numerals

def MSEC_PER_SEC : UInt64 := 1000
def MSM_ARCH_TIMER_FREQ : UInt64 := 19200000

/-! ## The notifier -/

def get_time_in_msec (counter : UInt64) : UInt64 :=
  let counter := counter * MSEC_PER_SEC
  counter / MSM_ARCH_TIMER_FREQ

/-- The name that the marker is destroyed by. -/
def WAKEUP : Text := text "M - STR Wakeup"

/-- snprintf into 50 bytes. -/
def wakeup_marker (wake_up_time : UInt64) : Text :=
  (text "M - STR Wakeup : " ++ decimal wake_up_time.toNat ++ text " ms").take 49

/-- What the hardware and the kernel give to one call: the counter of the timer, the end of the
deep sleep, the ticks of the sleep clock and the stats of the boot loader. -/
structure Clocks where
  current_time : UInt64
  deep_sleep_exit_time : UInt64
  ticks : UInt64
  stats : Option boot_stats

inductive PmEvent
  | PM_POST_SUSPEND
  | other
  deriving DecidableEq, Repr

section

variable (kmalloc : Nat → Bool) (CONFIG_HIBERNATION : Bool)

def measure_wake_up_time (s : State) (c : Clocks) : State :=
  if c.deep_sleep_exit_time ≠ 0 then
    let wake_up_time := get_time_in_msec (c.current_time - c.deep_sleep_exit_time)
    let s := destroy_marker_kernel s WAKEUP
    place_marker kmalloc CONFIG_HIBERNATION s (wakeup_marker wake_up_time) c.ticks c.stats
  else destroy_marker_kernel s WAKEUP

def boot_kpi_pm_notifier (s : State) (event : PmEvent) (c : Clocks) : State :=
  if event = .PM_POST_SUSPEND then measure_wake_up_time kmalloc CONFIG_HIBERNATION s c else s

/-- The calls of the driver: those of the other modules and the user, and the notifier. -/
inductive Call
  | marker (op : Op)
  | pm (event : PmEvent) (c : Clocks)

def call (s : State) : Call → Option State
  | .marker op => step kmalloc CONFIG_HIBERNATION s op
  | .pm event c => some (boot_kpi_pm_notifier kmalloc CONFIG_HIBERNATION s event c)

end

/-! ## The time and the name -/

theorem toNat_get_time_in_msec (counter : UInt64) :
    (get_time_in_msec counter).toNat = counter.toNat * 1000 % 2 ^ 64 / 19200000 := by
  simp [get_time_in_msec, MSEC_PER_SEC, MSM_ARCH_TIMER_FREQ, UInt64.toNat_div, UInt64.toNat_mul]

/-- The time is right when the multiplication does not wrap, and only then. -/
theorem get_time_in_msec_exact_iff (counter : UInt64) :
    (get_time_in_msec counter).toNat = counter.toNat * 1000 / 19200000 ↔
      counter.toNat * 1000 < 2 ^ 64 := by
  rw [toNat_get_time_in_msec]
  omega

/-- The name fits in the buffer and in the marker: the time has at most twelve digits. -/
theorem wakeup_marker_eq (counter : UInt64) :
    wakeup_marker (get_time_in_msec counter) =
        text "M - STR Wakeup : " ++ decimal (get_time_in_msec counter).toNat ++ text " ms" ∧
      (wakeup_marker (get_time_in_msec counter)).length < MARKER_STRING_WIDTH := by
  have hdigits : (decimal (get_time_in_msec counter).toNat).length ≤ 12 := by
    apply length_decimal_le (by decide)
    rw [toNat_get_time_in_msec]
    omega
  have hlen : (text "M - STR Wakeup : " ++ decimal (get_time_in_msec counter).toNat ++
      text " ms").length = 20 + (decimal (get_time_in_msec counter).toNat).length := by
    have h1 : (text "M - STR Wakeup : ").length = 17 := by decide
    have h2 : (text " ms").length = 3 := by decide
    rw [List.length_append, List.length_append, h1, h2]
    omega
  have heq : wakeup_marker (get_time_in_msec counter) =
      text "M - STR Wakeup : " ++ decimal (get_time_in_msec counter).toNat ++ text " ms" := by
    apply List.take_of_length_le
    omega
  refine ⟨heq, ?_⟩
  rw [heq, hlen, MARKER_STRING_WIDTH]
  omega

theorem strnstr_of_prefix {s t : Text} (h : s <+: t) : strnstr t s = true := by
  have hpre := List.isPrefixOf_iff_prefix.mpr h
  cases t with
  | nil => exact hpre
  | cons c t => simp [strnstr, hpre]

/-- A marker of a wake-up, by what _destroy_boot_marker looks for. -/
def is_wakeup (m : Marker) : Bool := strnstr m.marker_name WAKEUP

theorem strnstr_wakeup_marker (counter : UInt64) :
    strnstr (wakeup_marker (get_time_in_msec counter)) WAKEUP = true := by
  rw [(wakeup_marker_eq counter).1]
  apply strnstr_of_prefix
  have h : text "M - STR Wakeup : " = WAKEUP ++ text " : " := by decide
  rw [h, List.append_assoc, List.append_assoc]
  exact List.prefix_append _ _

/-- The markers of wake-ups. -/
def wakeups (s : State) : List Marker := s.boot_marker_list.filter is_wakeup

/-- The markers of everything else. -/
def others (s : State) : List Marker := s.boot_marker_list.filter (fun m => !is_wakeup m)

/-! ## What each call makes of the markers -/

/-- The loop keeps the markers that do not meet its test. -/
theorem free_loop_eq_filter {s : State} (h : Indexed s) (p : Marker → Bool) :
    (free_loop p s.boot_marker_list s).boot_marker_list =
      s.boot_marker_list.filter (fun m => !p m) := by
  rw [free_loop_list]
  apply List.filter_congr
  intro x hx
  congr 1
  rw [Bool.eq_iff_iff, List.any_eq_true]
  constructor
  · rintro ⟨m, hm, haddr⟩
    obtain ⟨hm, hp⟩ := List.mem_filter.mp hm
    rw [h.unique.eq hx hm (by simpa using haddr)]
    exact hp
  · intro hp
    exact ⟨x, List.mem_filter.mpr ⟨hx, hp⟩, by simp⟩

theorem destroy_indexed {s : State} (h : Indexed s) (name : Text) :
    Indexed (destroy_marker_kernel s name) :=
  free_loop_indexed h h.unique (fun _ hm => hm)

theorem destroy_wakeup_list {s : State} (h : Indexed s) :
    (destroy_marker_kernel s WAKEUP).boot_marker_list = others s :=
  free_loop_eq_filter h is_wakeup

section

variable {kmalloc : Nat → Bool} {CONFIG_HIBERNATION : Bool} {s t : State}

/-- The names of another marker never look like one of a wake-up. -/
def Plain (name : Text) : Prop := strnstr (stored_name name) WAKEUP = false

/-- A marker that is created under another name leaves those of the wake-ups. -/
theorem create_wakeups (h : Indexed s) {name : Text} (hn : Plain name) (ticks : UInt64) :
    wakeups (_create_boot_marker kmalloc s name ticks) = wakeups s := by
  rcases create_cases kmalloc h name ticks with
    ⟨_, he⟩ | ⟨m, hm, hname, he⟩ | ⟨_, _, _, he⟩ | ⟨_, _, he⟩
  · rw [he]
  · rw [he]
    have hplain : is_wakeup m = false := by
      have hshort := m.fits
      rw [hname] at hshort
      rw [Plain, stored_name_of_short hshort] at hn
      rw [is_wakeup, hname]
      exact hn
    unfold wakeups set_timer_value
    simp only [keyed.update, List.filter_map]
    rw [List.map_congr_left, List.map_id']
    · apply List.filter_congr
      intro x _
      simp only [Function.comp_apply]
      split <;> rfl
    · intro x hx
      obtain ⟨hx, hw⟩ := List.mem_filter.mp hx
      simp only [Function.comp_apply] at hw
      split
      · rename_i haddr
        rw [if_pos haddr, h.unique.eq hx hm haddr] at hw
        exact absurd (hw.symm.trans hplain) (by simp)
      · rfl
  · rw [he]
    have hplain : is_wakeup (new_marker s name ticks) = false := hn
    simp [wakeups, add_marker, hplain]
  · rw [he]
    rfl

/-- A list of names under which create_all creates markers. -/
theorem create_all_wakeups (h : Indexed s) {l : List (Text × UInt64)} (hl : ∀ x ∈ l, Plain x.1) :
    Indexed (create_all kmalloc s l) ∧ wakeups (create_all kmalloc s l) = wakeups s := by
  induction l generalizing s with
  | nil => exact ⟨h, rfl⟩
  | cons x l ih =>
    obtain ⟨hi, hw⟩ := ih (create_indexed h x.1 x.2) (fun y hy => hl y (List.mem_cons_of_mem _ hy))
    refine ⟨hi, hw.trans ?_⟩
    exact create_wakeups h (hl x List.mem_cons_self) x.2

theorem load_markers_plain {a b c : Text} (ha : Plain a) (hb : Plain b) (hc : Plain c)
    (ts1 ts2 : UInt32) : ∀ x ∈ load_markers a b c ts1 ts2, Plain x.1 := by
  intro x hx
  unfold load_markers at hx
  split at hx
  · simp at hx
  · simp only [List.mem_cons, List.not_mem_nil, or_false] at hx
    rcases hx with rfl | rfl | rfl
    · exact ha
    · exact hb
    · exact hc

instance (name : Text) : Decidable (Plain name) := inferInstanceAs (Decidable (_ = _))

theorem loads_plain (b : boot_stats) (hibernation_restore : Bool) :
    ∀ x ∈ loads b hibernation_restore, Plain x.1 := by
  intro x hx
  cases hibernation_restore
  · simp only [loads, Bool.false_eq_true, if_false, List.mem_append] at hx
    rcases hx with (hx | hx) | hx
    · exact load_markers_plain (by decide) (by decide) (by decide) _ _ x hx
    · exact load_markers_plain (by decide) (by decide) (by decide) _ _ x hx
    · exact load_markers_plain (by decide) (by decide) (by decide) _ _ x hx
  · simp only [loads, if_true, List.mem_cons, List.not_mem_nil, or_false] at hx
    rcases hx with rfl | rfl
    · exact (by decide : Plain (text "D - APPSBL Hibernation Image Load Start -"))
    · exact (by decide : Plain (text "D - APPSBL Hibernation Image Load End - "))

theorem set_bootloader_stats_wakeups (h : Indexed s) (stats : Option boot_stats)
    (hibernation_restore : Bool) :
    Indexed (set_bootloader_stats kmalloc s stats hibernation_restore) ∧
      wakeups (set_bootloader_stats kmalloc s stats hibernation_restore) = wakeups s := by
  unfold set_bootloader_stats
  cases stats with
  | none => exact ⟨h, rfl⟩
  | some b =>
    apply create_all_wakeups h
    intro x hx
    simp only [List.mem_append, List.mem_singleton] at hx
    rcases hx with (rfl | hx) | rfl
    · exact (by decide : Plain (text "M - APPSBL Start - "))
    · exact loads_plain b hibernation_restore x hx
    · exact (by decide : Plain (text "M - APPSBL End - "))

theorem cleanup_wakeups (h : Indexed s) :
    Indexed (boot_marker_cleanup s) ∧ wakeups (boot_marker_cleanup s) = [] := by
  refine ⟨boot_marker_cleanup_indexed h, ?_⟩
  simp [wakeups, boot_marker_cleanup_list]

/-- A restart behind a hibernation leaves no marker of a wake-up. -/
theorem place_restart_wakeups (h : Indexed s) (name : Text) (stats : Option boot_stats) :
    Indexed (place_restart kmalloc CONFIG_HIBERNATION s name stats) ∧
      (wakeups (place_restart kmalloc CONFIG_HIBERNATION s name stats) = [] ∨
        wakeups (place_restart kmalloc CONFIG_HIBERNATION s name stats) = wakeups s) := by
  unfold place_restart
  split
  · obtain ⟨hi, hw⟩ := cleanup_wakeups h
    obtain ⟨hi', hw'⟩ := @set_bootloader_stats_wakeups kmalloc _ hi stats true
    exact ⟨hi', Or.inl (hw'.trans hw)⟩
  · exact ⟨h, Or.inr rfl⟩

/-- The calls of the others: a marker they place does not look like one of a wake-up. -/
def PlainOp : Op → Prop
  | .place_marker name _ _ => Plain name.bytes
  | _ => True

/-- The others can only take away a marker of a wake-up. -/
theorem step_wakeups (h : Indexed s) {op : Op} (hop : PlainOp op)
    (ht : step kmalloc CONFIG_HIBERNATION s op = some t) :
    Indexed t ∧ (wakeups t).Sublist (wakeups s) := by
  cases op with
  | place_marker name ticks stats =>
    cases ht
    obtain ⟨hi, hw⟩ := @place_restart_wakeups kmalloc CONFIG_HIBERNATION s h name.bytes stats
    refine ⟨create_indexed hi _ _, ?_⟩
    rw [place_marker, create_wakeups hi hop]
    rcases hw with hw | hw <;> simp [hw]
  | destroy_marker_kernel name =>
    cases ht
    refine ⟨destroy_indexed h _, ?_⟩
    apply List.Sublist.filter
    rw [destroy_marker_kernel, free_loop_eq_filter h]
    exact List.filter_sublist
  | boot_marker_cleanup =>
    cases ht
    obtain ⟨hi, hw⟩ := cleanup_wakeups h
    exact ⟨hi, by simp [hw]⟩

/-- The marker that a suspend places: its name has the time since the end of the deep sleep. -/
def Tells (m : Marker) (c : Clocks) : Prop :=
  c.deep_sleep_exit_time ≠ 0 ∧
    m.marker_name = text "M - STR Wakeup : " ++
      decimal (get_time_in_msec (c.current_time - c.deep_sleep_exit_time)).toNat ++ text " ms" ∧
    m.timer_value = c.ticks

/-- Behind a suspend the markers are those of everything else, and the new one when there was a
deep sleep, room and memory. -/
theorem measure_wake_up_time_list (h : Indexed s) (c : Clocks) :
    Indexed (measure_wake_up_time kmalloc CONFIG_HIBERNATION s c) ∧
      ((measure_wake_up_time kmalloc CONFIG_HIBERNATION s c).boot_marker_list = others s ∨
        ∃ m, (measure_wake_up_time kmalloc CONFIG_HIBERNATION s c).boot_marker_list =
          others s ++ [m] ∧ Tells m c) := by
  have hi := destroy_indexed h WAKEUP
  have hlist := destroy_wakeup_list h
  unfold measure_wake_up_time
  split
  case isFalse => exact ⟨hi, Or.inl hlist⟩
  rename_i hexit
  dsimp only
  obtain ⟨hname, hshort⟩ := wakeup_marker_eq (c.current_time - c.deep_sleep_exit_time)
  have hlook := strnstr_wakeup_marker (c.current_time - c.deep_sleep_exit_time)
  generalize hN : wakeup_marker (get_time_in_msec (c.current_time - c.deep_sleep_exit_time)) = name
    at hname hshort hlook
  -- the name is not the one of a restart
  have hrestart : place_restart kmalloc CONFIG_HIBERNATION (destroy_marker_kernel s WAKEUP) name
      c.stats = destroy_marker_kernel s WAKEUP := by
    have hne : name ≠ text "M - Image Kernel Start" := by
      intro he
      rw [he] at hlook
      exact absurd hlook (by decide)
    simp [place_restart, restarts, hne]
  rw [place_marker, hrestart]
  refine ⟨create_indexed hi _ _, ?_⟩
  rcases create_cases kmalloc hi name c.ticks with
    ⟨_, he⟩ | ⟨m, hm, hmname, _⟩ | ⟨_, _, _, he⟩ | ⟨_, _, he⟩
  · rw [he]
    exact Or.inl hlist
  · -- the marker that has the name would have been destroyed
    rw [hlist] at hm
    have hnot := (List.mem_filter.mp hm).2
    simp [is_wakeup, hmname, hlook] at hnot
  · right
    rw [he]
    refine ⟨new_marker (destroy_marker_kernel s WAKEUP) name c.ticks, by simp [add_marker, hlist],
      hexit, ?_, rfl⟩
    exact (stored_name_of_short hshort).trans hname
  · rw [he]
    exact Or.inl hlist

/-- The clocks of the last suspend that the notifier heard of. -/
def last_suspend (as : List Call) : Option Clocks :=
  (as.filterMap (fun a => match a with
    | .pm .PM_POST_SUSPEND c => some c
    | _ => none)).getLast?

theorem last_suspend_snoc (as : List Call) (a : Call) :
    last_suspend (as ++ [a]) =
      (match a with
        | .pm .PM_POST_SUSPEND c => some c
        | _ => last_suspend as) := by
  unfold last_suspend
  rw [List.filterMap_append]
  rcases a with op | ⟨_ | _, c⟩ <;> simp

/-- The markers of wake-ups are none, or the one of the last suspend. -/
def Latest (as : List Call) (s : State) : Prop :=
  wakeups s = [] ∨ ∃ m c, wakeups s = [m] ∧ last_suspend as = some c ∧ Tells m c

theorem Tells.is_wakeup {m : Marker} {c : Clocks} (h : Tells m c) : is_wakeup m = true := by
  rw [wakeup.is_wakeup, h.2.1, ← (wakeup_marker_eq _).1]
  exact strnstr_wakeup_marker _

theorem wakeups_others (s : State) : (others s).filter is_wakeup = [] := by
  simp [others, List.filter_filter]

theorem latest_call {as : List Call} {a : Call} (hi : Indexed s) (hl : Latest as s)
    (ha : ∀ op, a = .marker op → PlainOp op)
    (ht : call kmalloc CONFIG_HIBERNATION s a = some t) : Indexed t ∧ Latest (as ++ [a]) t := by
  unfold Latest
  rw [last_suspend_snoc]
  cases a with
  | marker op =>
    obtain ⟨hi', hsub⟩ := step_wakeups hi (ha op rfl) ht
    refine ⟨hi', ?_⟩
    rcases hl with hl | ⟨m, c, hw, hlast, htells⟩
    · rw [hl] at hsub
      exact Or.inl (List.sublist_nil.mp hsub)
    · rw [hw] at hsub
      rcases List.sublist_singleton.mp hsub with h | h
      · exact Or.inl h
      · exact Or.inr ⟨m, c, h, hlast, htells⟩
  | pm event c =>
    cases event with
    | other =>
      cases ht
      exact ⟨hi, hl⟩
    | PM_POST_SUSPEND =>
      cases ht
      obtain ⟨hi', hlist⟩ := @measure_wake_up_time_list kmalloc CONFIG_HIBERNATION s hi c
      refine ⟨hi', ?_⟩
      simp only [boot_kpi_pm_notifier, if_true, wakeups]
      rcases hlist with hlist | ⟨m, hlist, htells⟩
      · left
        rw [hlist, wakeups_others]
      · right
        refine ⟨m, c, ?_, rfl, htells⟩
        rw [hlist, List.filter_append, wakeups_others]
        simp [htells.is_wakeup]

/-- Whatever the other modules and the user do, as long as they place no marker that looks like it,
there is at most one marker of a wake-up, and it tells the time of the last suspend: no marker
of an earlier one is left behind. The time is right when the multiplication does not wrap. -/
theorem the_marker_tells_the_last_wake_up {stats : Option boot_stats} {as : List Call}
    (h : run (call kmalloc CONFIG_HIBERNATION) (boot_marker_init kmalloc stats) as = some s)
    (hp : ∀ op, .marker op ∈ as → PlainOp op) :
    wakeups s = [] ∨ ∃ m c, wakeups s = [m] ∧ last_suspend as = some c ∧ Tells m c ∧
      ((get_time_in_msec (c.current_time - c.deep_sleep_exit_time)).toNat =
          (c.current_time - c.deep_sleep_exit_time).toNat * 1000 / 19200000 ↔
        (c.current_time - c.deep_sleep_exit_time).toNat * 1000 < 2 ^ 64) := by
  have hinit := @set_bootloader_stats_wakeups kmalloc _
    (indexed_nil (fun _ => []) (fun _ => rfl) 0) stats false
  have hinv : (∀ op, .marker op ∈ as → PlainOp op) → Indexed s ∧ Latest as s := by
    apply run_trace_inv (fun as s => (∀ op, .marker op ∈ as → PlainOp op) → Indexed s ∧ Latest as s)
      _ _ h
    · intro _
      refine ⟨hinit.1, Or.inl ?_⟩
      exact hinit.2
    · intro pre u a v _ hu hv hplain
      obtain ⟨hi, hl⟩ := hu (fun op hop => hplain op (by simp [hop]))
      exact latest_call hi hl (fun op hop => hplain op (by simp [hop])) hv
  rcases (hinv hp).2 with hnone | ⟨m, c, hw, hlast, htells⟩
  · exact Or.inl hnone
  · exact Or.inr ⟨m, c, hw, hlast, htells, get_time_in_msec_exact_iff _⟩

/-- Two suspends, with a marker of the user between them. -/
def twoSuspends : List Call :=
  [.pm .PM_POST_SUSPEND ⟨19200000, 9600000, 5, none⟩,
    .marker (.place_marker ⟨text "M - App", by decide, by decide⟩ 6 none),
    .pm .PM_POST_SUSPEND ⟨192000000, 96000000, 7, none⟩]

theorem two_suspends_leave_one_marker :
    ∃ s, run (call (fun _ => true) false) (boot_marker_init (fun _ => true) none) twoSuspends =
        some s ∧
      (wakeups s = [] ∨ ∃ m, wakeups s = [m] ∧ Tells m ⟨192000000, 96000000, 7, none⟩) := by
  obtain ⟨s, hs⟩ : ∃ s, run (call (fun _ => true) false) (boot_marker_init (fun _ => true) none)
      twoSuspends = some s := ⟨_, rfl⟩
  have hp : ∀ op, .marker op ∈ twoSuspends → PlainOp op := by
    intro op hop
    simp only [twoSuspends, List.mem_cons, List.not_mem_nil, or_false, reduceCtorEq, false_or,
      Call.marker.injEq] at hop
    rw [hop]
    exact (by decide : Plain (text "M - App"))
  refine ⟨s, hs, ?_⟩
  rcases the_marker_tells_the_last_wake_up hs hp with h | ⟨m, c, hw, hlast, htells, -⟩
  · exact Or.inl h
  · cases hlast
    exact Or.inr ⟨m, hw, htells⟩

end

end boot_marker.wakeup
