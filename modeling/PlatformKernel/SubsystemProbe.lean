-- The probe and the remove of drivers/subsystem_notif_virt.c: the children of
-- the device tree node become descriptors, and the native ones of them register
-- a notifier with the SSR framework. The list of the notifiers is static, while
-- the memory of the descriptors goes with the device.
import PlatformKernel.SubsystemNotif

namespace subsystem_notif_virt.resources

open step_runs

def ENOMEM : Int := 12
def EINVAL : Int := 22

/-- A child node, and what the kernel answers for it. -/
structure Child where
  kzalloc : Bool
  name : Option String
  offset : Option (BitVec 32)
  /-- The property `type`. -/
  ss_type : Option String
  /-- Whether qcom_register_ssr_notifier gives a handle. -/
  register : Bool
  /-- of_irq_get_byname. -/
  ssr_irq : Int
  /-- Whether devm_request_threaded_irq gives the interrupt. -/
  request_irq : Bool
  deriving DecidableEq, Repr

/-- The static variables, the notifiers at the SSR framework, and the memory and the interrupts
that go with the device. A descriptor is named by its number. -/
structure Driver where
  ssr_wq : Bool
  subsystem_descriptor_list : List Nat
  registered : List Nat
  live : List Nat
  irqs : List Nat
  next : Nat
  bound : Bool
  deriving DecidableEq, Repr

def init : Driver := ⟨false, [], [], [], [], 0, false⟩

/-- The memory is zero before the two comparisons. -/
def subsystem_type (ss_type : String) : SubsystemType :=
  let type := SubsystemType.VIRTUAL
  let type := if ss_type = "virtual" then SubsystemType.VIRTUAL else type
  if ss_type = "native" then SubsystemType.NATIVE else type

/-- The switch over the type, for the descriptor `d`. A failed request of the interrupt is no
error. -/
def add_subsystem (s : Driver) (d : Nat) (c : Child) : SubsystemType → Driver × Int
  | .NATIVE =>
    if c.register = false then (s, -EINVAL)
    else
      ({ s with
        registered := s.registered ++ [d]
        subsystem_descriptor_list := s.subsystem_descriptor_list ++ [d] }, 0)
  | .VIRTUAL =>
    if c.ssr_irq < 0 then (s, -EINVAL)
    else if c.request_irq then ({ s with irqs := s.irqs ++ [d] }, 0) else (s, 0)

/-- The body of the loop over the children. -/
def add_child (s : Driver) (c : Child) : Driver × Int :=
  if c.kzalloc = false then (s, -ENOMEM)
  else
    let d := s.next
    let s : Driver := { s with live := s.live ++ [d], next := s.next + 1 }
    match c.name, c.offset, c.ss_type with
    | none, _, _ => (s, -EINVAL)
    | _, none, _ => (s, -EINVAL)
    | _, _, none => (s, -EINVAL)
    | some _, some _, some ss_type => add_subsystem s d c (subsystem_type ss_type)

/-- The loop over the children ends at the first error. -/
def add_children (s : Driver) : List Child → Driver × Int
  | [] => (s, 0)
  | c :: cs =>
    let r := add_child s c
    if r.2 ≠ 0 then r else add_children r.1 cs

def get_resources (s : Driver) (ioremap : Bool) (children : List Child) : Driver × Int :=
  if ioremap = false then (s, -ENOMEM) else add_children s children

/-- `qcom_unregister_ssr_notifier` and `list_del` for each descriptor of the list. -/
def release_resources (s : Driver) : Driver :=
  { s with
    registered := s.registered.filter (fun d => d ∉ s.subsystem_descriptor_list)
    subsystem_descriptor_list := [] }

/-- What the driver core frees when a probe fails or a device goes. -/
def devres_release (s : Driver) : Driver := { s with live := [], irqs := [] }

/-- What the probe gets from the kernel and the device tree. -/
structure ProbeEnv where
  create_workqueue : Bool
  ioremap : Bool
  children : List Child
  deriving DecidableEq, Repr

def subsys_notif_virt_probe (s : Driver) (e : ProbeEnv) : Driver × Int :=
  if e.create_workqueue = false then (s, -ENOMEM)
  else
    let r := get_resources { s with ssr_wq := true } e.ioremap e.children
    if r.2 ≠ 0 then ({ r.1 with ssr_wq := false }, r.2) else r

def subsys_notif_virt_remove (s : Driver) : Driver := release_resources { s with ssr_wq := false }

inductive Act
  | probe (e : ProbeEnv)
  | remove
  deriving DecidableEq, Repr

/-- The driver core binds a device that is not bound, and removes one that is. -/
def step (s : Driver) : Act → Option Driver
  | .probe e =>
    if s.bound then none
    else
      let r := subsys_notif_virt_probe s e
      some (if r.2 = 0 then { r.1 with bound := true } else devres_release r.1)
  | .remove =>
    if s.bound then some { devres_release (subsys_notif_virt_remove s) with bound := false }
    else none

/-! ## One probe -/

/-- The loop takes the child without an error. -/
def Child.ok (c : Child) : Bool :=
  match c.kzalloc, c.name, c.offset, c.ss_type with
  | true, some _, some _, some ss_type =>
    if subsystem_type ss_type = .NATIVE then c.register else decide (0 ≤ c.ssr_irq)
  | _, _, _, _ => false

/-- The child is one that registers a notifier. -/
def Child.native (c : Child) : Bool := c.ss_type == some "native"

/-- The children that the loop takes before its first error. -/
def taken (cs : List Child) : List Child := cs.takeWhile Child.ok

/-- The numbers of the native descriptors, the first child having the number `n`. -/
def natives : Nat → List Child → List Nat
  | _, [] => []
  | n, c :: cs => (if c.native then [n] else []) ++ natives (n + 1) cs

theorem subsystem_type_native {ss_type : String} :
    subsystem_type ss_type = .NATIVE ↔ ss_type = "native" := by
  unfold subsystem_type
  by_cases h : ss_type = "native" <;> simp [h]

theorem mem_natives {n d : Nat} {cs : List Child} (h : d ∈ natives n cs) :
    n ≤ d ∧ d < n + cs.length := by
  induction cs generalizing n with
  | nil => cases h
  | cons c cs ih =>
    rw [List.length_cons]
    rcases List.mem_append.mp h with h | h
    · split at h
      · rw [List.mem_singleton.mp h]
        omega
      · cases h
    · have := ih h
      omega

theorem natives_nodup (n : Nat) (cs : List Child) : (natives n cs).Nodup := by
  induction cs generalizing n with
  | nil => exact List.nodup_nil
  | cons c cs ih =>
    rw [natives, List.nodup_append]
    refine ⟨by split <;> simp, ih (n + 1), ?_⟩
    intro a ha b hb
    have := (mem_natives hb).1
    split at ha
    · rw [List.mem_singleton.mp ha]
      omega
    · cases ha

theorem natives_eq_nil {n : Nat} {cs : List Child} :
    natives n cs = [] ↔ ∀ c ∈ cs, c.native = false := by
  induction cs generalizing n with
  | nil => simp [natives]
  | cons c cs ih =>
    by_cases h : c.native <;> simp [natives, h, ih]

/-- What one child leaves. -/
structure Added (s t : Driver) (c : Child) : Prop where
  registered : t.registered = s.registered ++ if c.ok && c.native then [s.next] else []
  list : t.subsystem_descriptor_list =
    s.subsystem_descriptor_list ++ if c.ok && c.native then [s.next] else []
  next : t.next = if c.kzalloc then s.next + 1 else s.next
  live : t.live = s.live ++ if c.kzalloc then [s.next] else []
  bound : t.bound = s.bound

theorem add_child_added (s : Driver) (c : Child) : Added s (add_child s c).1 c := by
  obtain ⟨kz, name, offset, ty, reg, irq, req⟩ := c
  cases kz with
  | false => constructor <;> simp [add_child, Child.ok]
  | true =>
    rcases name with _ | name
    · constructor <;> simp [add_child, Child.ok]
    · rcases offset with _ | offset
      · constructor <;> simp [add_child, Child.ok]
      · rcases ty with _ | ty
        · constructor <;> simp [add_child, Child.ok]
        · rcases hty : subsystem_type ty with _ | _
          · have hne : ty ≠ "native" := fun h => by
              rw [subsystem_type_native.mpr h] at hty
              cases hty
            by_cases hirq : irq < 0 <;> cases req <;>
              constructor <;>
                simp [add_child, add_subsystem, Child.ok, Child.native, hty, hne, hirq]
          · have he := subsystem_type_native.mp hty
            subst he
            cases reg <;>
              constructor <;> simp [add_child, add_subsystem, Child.ok, Child.native, hty]

theorem add_child_err (s : Driver) (c : Child) : (add_child s c).2 = 0 ↔ c.ok = true := by
  obtain ⟨kz, name, offset, ty, reg, irq, req⟩ := c
  cases kz with
  | false => simp [add_child, Child.ok, ENOMEM]
  | true =>
    rcases name with _ | name
    · simp [add_child, Child.ok, EINVAL]
    · rcases offset with _ | offset
      · simp [add_child, Child.ok, EINVAL]
      · rcases ty with _ | ty
        · simp [add_child, Child.ok, EINVAL]
        · rcases hty : subsystem_type ty with _ | _
          · by_cases hirq : irq < 0
            · have : ¬ 0 ≤ irq := by omega
              simp [add_child, add_subsystem, Child.ok, hty, hirq, EINVAL, this]
            · have : 0 ≤ irq := by omega
              cases req <;> simp [add_child, add_subsystem, Child.ok, hty, hirq, this]
          · cases reg <;> simp [add_child, add_subsystem, Child.ok, hty, EINVAL]

/-- What the loop leaves: the native children before the first error have a notifier, and every
descriptor that has one has its memory. -/
structure Looped (s t : Driver) (cs : List Child) : Prop where
  registered : t.registered = s.registered ++ natives s.next (taken cs)
  list : t.subsystem_descriptor_list = s.subsystem_descriptor_list ++ natives s.next (taken cs)
  next : s.next + (taken cs).length ≤ t.next
  grown : ∀ d ∈ s.live, d ∈ t.live
  live : ∀ d ∈ natives s.next (taken cs), d ∈ t.live
  bound : t.bound = s.bound

theorem kzalloc_of_ok {c : Child} (h : c.ok = true) : c.kzalloc = true := by
  rcases hk : c.kzalloc with _ | _
  · simp [Child.ok, hk] at h
  · rfl

theorem add_children_looped (s : Driver) (cs : List Child) :
    Looped s (add_children s cs).1 cs ∧ ((add_children s cs).2 = 0 ↔ ∀ c ∈ cs, c.ok = true) := by
  induction cs generalizing s with
  | nil => exact ⟨by constructor <;> simp [add_children, taken, natives], by simp [add_children]⟩
  | cons c cs ih =>
    have hadd := add_child_added s c
    have herr := add_child_err s c
    rcases hok : c.ok with _ | _
    · have hne : (add_child s c).2 ≠ 0 := fun h => by
        rw [herr, hok] at h
        cases h
      have hreg := hadd.registered
      have hlist := hadd.list
      rw [hok, Bool.false_and, if_neg (by simp), List.append_nil] at hreg hlist
      have hnil : taken (c :: cs) = [] := by simp [taken, hok]
      have hdef : add_children s (c :: cs) = add_child s c := by simp [add_children, hne]
      rw [hdef]
      refine ⟨⟨?_, ?_, ?_, ?_, ?_, hadd.bound⟩, ?_⟩
      · simp [hreg, hnil, natives]
      · simp [hlist, hnil, natives]
      · rw [hadd.next, hnil]
        split <;> simp
      · intro d hd
        rw [hadd.live]
        exact List.mem_append_left _ hd
      · simp [hnil, natives]
      · simp [hne, hok]
    · have hz : (add_child s c).2 = 0 := herr.mpr hok
      have hk := kzalloc_of_ok hok
      have hreg := hadd.registered
      have hlist := hadd.list
      have hnext := hadd.next
      have hlive := hadd.live
      rw [hok, Bool.true_and] at hreg hlist
      rw [hk, if_pos rfl] at hnext hlive
      have hdef : add_children s (c :: cs) = add_children (add_child s c).1 cs := by
        simp [add_children, hz]
      have htaken : taken (c :: cs) = c :: taken cs := by simp [taken, hok]
      obtain ⟨⟨ireg, ilist, inext, igrown, ilive, ibound⟩, ierr⟩ := ih (add_child s c).1
      rw [hnext] at ireg ilist ilive inext
      rw [hdef]
      refine ⟨⟨?_, ?_, ?_, ?_, ?_, ibound.trans hadd.bound⟩, ?_⟩
      · rw [ireg, hreg, htaken, natives, List.append_assoc]
      · rw [ilist, hlist, htaken, natives, List.append_assoc]
      · rw [htaken, List.length_cons]
        omega
      · intro d hd
        apply igrown
        rw [hlive]
        exact List.mem_append_left _ hd
      · intro d hd
        rw [htaken] at hd
        rcases List.mem_append.mp hd with hd | hd
        · apply igrown
          rw [hlive]
          split at hd
          · exact List.mem_append_right _ hd
          · cases hd
        · exact ilive d hd
      · rw [ierr]
        simp [hok]

/-! ## Every run of probes and removes -/

/-- The list holds the notifiers that are registered, each once, and a device that is gone has
left no memory. -/
structure Listed (s : Driver) : Prop where
  list : s.subsystem_descriptor_list = s.registered
  nodup : s.registered.Nodup
  old : ∀ d ∈ s.registered, d < s.next
  gone : s.bound = false → s.live = []

/-- The SSR framework calls no notifier whose memory is freed. -/
def Sound (s : Driver) : Prop := ∀ d ∈ s.registered, d ∈ s.live

/-- The children that the probe comes to. -/
def ProbeEnv.reached (e : ProbeEnv) : List Child :=
  if e.create_workqueue && e.ioremap then e.children else []

/-- The probe fails at no child that has a native one before it. -/
def NoneLeft : Act → Prop
  | .probe e => (∃ c ∈ e.reached, c.ok = false) → ∀ c ∈ taken e.reached, c.native = false
  | .remove => True

theorem probe_looped (s : Driver) (e : ProbeEnv) :
    Looped s (subsys_notif_virt_probe s e).1 e.reached ∧
      ((subsys_notif_virt_probe s e).2 = 0 →
        ∀ c ∈ e.reached, c.ok = true) ∧
      ((subsys_notif_virt_probe s e).2 ≠ 0 → e.reached ≠ [] → ∃ c ∈ e.reached, c.ok = false) := by
  obtain ⟨wq, io, children⟩ := e
  cases wq with
  | false =>
    refine ⟨?_, ?_, ?_⟩
    · constructor <;> simp [subsys_notif_virt_probe, ProbeEnv.reached, taken, natives]
    · simp [ProbeEnv.reached]
    · simp [ProbeEnv.reached]
  | true =>
    cases io with
    | false =>
      refine ⟨?_, ?_, ?_⟩
      · constructor <;>
          simp [subsys_notif_virt_probe, get_resources, ProbeEnv.reached, taken, natives, ENOMEM]
      · simp [ProbeEnv.reached]
      · simp [ProbeEnv.reached]
    | true =>
      have hloop := add_children_looped { s with ssr_wq := true } children
      obtain ⟨⟨hreg, hlist, hnext, hgrown, hlive, hbound⟩, herr⟩ := hloop
      have hreached : (⟨true, true, children⟩ : ProbeEnv).reached = children := rfl
      rw [hreached]
      by_cases hz : (add_children { s with ssr_wq := true } children).2 = 0
      · have hdef : subsys_notif_virt_probe s ⟨true, true, children⟩ =
            add_children { s with ssr_wq := true } children := by
          simp [subsys_notif_virt_probe, get_resources, hz]
        rw [hdef]
        exact ⟨⟨hreg, hlist, hnext, hgrown, hlive, hbound⟩, fun _ => herr.mp hz,
          fun h => absurd hz h⟩
      · have hdef : subsys_notif_virt_probe s ⟨true, true, children⟩ =
            ({ (add_children { s with ssr_wq := true } children).1 with ssr_wq := false },
              (add_children { s with ssr_wq := true } children).2) := by
          simp [subsys_notif_virt_probe, get_resources, hz]
        rw [hdef]
        refine ⟨⟨hreg, hlist, hnext, hgrown, hlive, hbound⟩, fun h => absurd h hz, fun _ _ => ?_⟩
        by_contra hno
        apply hz
        rw [herr]
        intro c hc
        by_contra hok
        exact hno ⟨c, hc, by simpa using hok⟩

section

variable {s t : Driver} {a : Act}

/-- What a probe leaves, and what a remove leaves. -/
theorem step_cases (ht : step s a = some t) :
    (∃ e, a = .probe e ∧ s.bound = false ∧ Looped s (subsys_notif_virt_probe s e).1 e.reached ∧
      ((∀ c ∈ e.reached, c.ok = true) ∧
          t = { (subsys_notif_virt_probe s e).1 with bound := true } ∨
        (e.reached ≠ [] → ∃ c ∈ e.reached, c.ok = false) ∧
          t = devres_release (subsys_notif_virt_probe s e).1)) ∨
    (a = .remove ∧ s.bound = true ∧
      t = { devres_release (subsys_notif_virt_remove s) with bound := false }) := by
  cases a with
  | probe e =>
    simp only [step] at ht
    split at ht
    · cases ht
    · rename_i hb
      obtain ⟨hloop, hok, hbad⟩ := probe_looped s e
      refine Or.inl ⟨e, rfl, by simpa using hb, hloop, ?_⟩
      split at ht
      · rename_i hz
        exact Or.inl ⟨hok hz, (Option.some.inj ht).symm⟩
      · rename_i hz
        exact Or.inr ⟨hbad hz, (Option.some.inj ht).symm⟩
  | remove =>
    simp only [step] at ht
    split at ht
    · rename_i hb
      exact Or.inr ⟨rfl, hb, (Option.some.inj ht).symm⟩
    · cases ht

theorem Listed.looped (h : Listed s) {cs : List Child} (hl : Looped s t cs) :
    t.subsystem_descriptor_list = t.registered ∧ t.registered.Nodup ∧
      ∀ d ∈ t.registered, d < t.next := by
  have hlt := hl.next
  refine ⟨?_, ?_, ?_⟩
  · rw [hl.list, hl.registered, h.list]
  · rw [hl.registered, List.nodup_append]
    refine ⟨h.nodup, natives_nodup _ _, ?_⟩
    intro x hx y hy
    have hold := h.old x hx
    have hnew := (mem_natives hy).1
    omega
  · intro d hd
    rw [hl.registered] at hd
    rcases List.mem_append.mp hd with hd | hd
    · have := h.old d hd
      omega
    · have := (mem_natives hd).2
      omega

theorem release_resources_list (s : Driver) (h : s.subsystem_descriptor_list = s.registered) :
    (release_resources s).registered = [] := by
  simp [release_resources, h]

theorem Listed.step (h : Listed s) (ht : step s a = some t) : Listed t := by
  rcases step_cases ht with ⟨e, _, hb, hl, ⟨_, rfl⟩ | ⟨_, rfl⟩⟩ | ⟨_, _, rfl⟩
  · obtain ⟨h1, h2, h3⟩ := h.looped hl
    exact ⟨h1, h2, h3, by simp⟩
  · obtain ⟨h1, h2, h3⟩ := h.looped hl
    exact ⟨h1, h2, h3, fun _ => rfl⟩
  · have hreg := release_resources_list { s with ssr_wq := false } h.list
    refine ⟨?_, ?_, ?_, fun _ => rfl⟩
    · exact hreg.symm
    · show (release_resources { s with ssr_wq := false }).registered.Nodup
      rw [hreg]
      exact List.nodup_nil
    · show ∀ d ∈ (release_resources { s with ssr_wq := false }).registered, d < s.next
      rw [hreg]
      simp

/-- A step keeps the driver sound when it is none of a probe that leaves a notifier behind, and
only then. -/
theorem sound_step (h : Listed s) (hs : Sound s) (ht : step s a = some t) :
    Sound t ↔ NoneLeft a := by
  rcases step_cases ht with ⟨e, rfl, hb, hl, ⟨hok, rfl⟩ | ⟨hbad, rfl⟩⟩ | ⟨rfl, _, rfl⟩
  · constructor
    · rintro _ ⟨c, hc, hno⟩
      rw [hok c hc] at hno
      cases hno
    · intro _ d hd
      have hd' : d ∈ (subsys_notif_virt_probe s e).1.registered := hd
      rw [hl.registered] at hd'
      rcases List.mem_append.mp hd' with hd' | hd'
      · exact hl.grown d (hs d hd')
      · exact hl.live d hd'
  · -- nothing was registered before, so what is registered now is what the probe left
    have hnone : s.registered = [] := by
      rw [List.eq_nil_iff_forall_not_mem]
      intro d hd
      have := hs d hd
      rw [h.gone hb] at this
      cases this
    have hreg : (devres_release (subsys_notif_virt_probe s e).1).registered =
        natives s.next (taken e.reached) := by
      show (subsys_notif_virt_probe s e).1.registered = _
      rw [hl.registered, hnone, List.nil_append]
    have hiff : Sound (devres_release (subsys_notif_virt_probe s e).1) ↔
        natives s.next (taken e.reached) = [] := by
      rw [← hreg, List.eq_nil_iff_forall_not_mem]
      constructor
      · intro hsound d hd
        cases hsound d hd
      · intro hno d hd
        exact absurd hd (hno d)
    rw [hiff, natives_eq_nil]
    constructor
    · intro hno _
      exact hno
    · intro hno
      by_cases hr : e.reached = []
      · simp [hr, taken]
      · exact hno (hbad hr)
  · have hreg := release_resources_list { s with ssr_wq := false } h.list
    simp only [NoneLeft, iff_true]
    intro d hd
    have hd' : d ∈ (release_resources { s with ssr_wq := false }).registered := hd
    rw [hreg] at hd'
    cases hd'

end

theorem listed_init : Listed init := by
  constructor <;> simp [init]

/-- In every run of probes and removes the list holds the registered notifiers, each once, and a
remove leaves none. The notifiers have their memory throughout, if and only if no probe fails
behind a native child. -/
theorem notifiers_have_their_memory_iff {acts : List Act} {t : Driver}
    (h : run step init acts = some t) :
    t.subsystem_descriptor_list = t.registered ∧ t.registered.Nodup ∧
      (∀ u, step t .remove = some u → u.registered = []) ∧
      (Always step Sound init acts ↔ Meets step (fun _ a => NoneLeft a) init acts) := by
  have hlisted : Listed t := run_inv Listed (fun _ _ _ => Listed.step) listed_init h
  refine ⟨hlisted.list, hlisted.nodup, ?_, ?_⟩
  · intro u hu
    rcases step_cases hu with ⟨e, he, _⟩ | ⟨_, _, rfl⟩
    · cases he
    · exact release_resources_list { t with ssr_wq := false } hlisted.list
  · exact always_iff_meets Listed Sound (fun _ _ _ => Listed.step) (fun _ _ _ => sound_step)
      listed_init (by simp [Sound, init]) h

/-- A native child, and a virtual one behind it whose interrupt is not there. -/
def nativeThenBroken : ProbeEnv :=
  ⟨true, true, [⟨true, some "adsp", some 0, some "native", true, 0, true⟩,
    ⟨true, some "cdsp", some 16, some "virtual", true, -6, true⟩]⟩

theorem a_failed_probe_leaves_its_notifier :
    run step init [.probe nativeThenBroken] =
        some ⟨false, [0], [0], [], [], 2, false⟩ ∧
      ¬ Always step Sound init [.probe nativeThenBroken] := by
  have hrun : run step init [.probe nativeThenBroken] =
      some ⟨false, [0], [0], [], [], 2, false⟩ := by decide
  refine ⟨hrun, fun h => ?_⟩
  have hmeets := (notifiers_have_their_memory_iff hrun).2.2.2.mp h
  have := hmeets.1 ⟨_, List.mem_cons_of_mem _ List.mem_cons_self, by decide⟩ _
    (show _ ∈ taken nativeThenBroken.reached from List.mem_cons_self)
  exact absurd this (by decide)

end subsystem_notif_virt.resources
