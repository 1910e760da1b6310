-- Locks that several processors take. A processor runs the sections of its threads one
-- after the other. An interrupt runs a section of its own in between, when no lock that
-- is held was taken with the interrupts off. A processor that finds a lock taken waits
-- for it and does nothing else.
import PlatformKernel.Lib.Runs
import Mathlib.Logic.Function.Basic
import Mathlib.Logic.Relation

namespace lock_order

open step_runs Relation

variable {L C S : Type}

/-! ## Sections -/

/-- `lock l true` turns the interrupts of the processor off until `l` is released. -/
inductive Op (L : Type)
  | lock (l : L) (irqsave : Bool)
  | unlock (l : L)
  deriving DecidableEq, Repr

/-- What a section has still to do, and the locks it holds, the last one first. -/
structure Frame (L : Type) where
  todo : List (Op L)
  held : List (L × Bool)

/-- No lock was taken with the interrupts off. -/
def irqs_on (held : List (L × Bool)) : Prop := ∀ e ∈ held, e.2 = false

instance (held : List (L × Bool)) : Decidable (irqs_on held) :=
  inferInstanceAs (Decidable (∀ e ∈ held, e.2 = false))

/-- The locks that are taken. -/
def takes : List (Op L) → List L
  | [] => []
  | .lock l _ :: ops => l :: takes ops
  | .unlock _ :: ops => takes ops

/-- From these locks the section takes each lock above those it holds, releases the last one
first, and ends with none. Where the interrupts are on, the lock is `low`. -/
def Ordered (rank : L → Nat) (low : L → Prop) : List (L × Bool) → List (Op L) → Prop
  | held, [] => held = []
  | held, .lock l b :: ops =>
    (∀ e ∈ held, rank e.1 < rank l) ∧ (b = false → irqs_on held → low l) ∧
      Ordered rank low ((l, b) :: held) ops
  | held, .unlock l :: ops => ∃ b rest, held = (l, b) :: rest ∧ Ordered rank low rest ops

/-- The locks that are held where the interrupts are on are `low`. -/
def Covered (low : L → Prop) : List (L × Bool) → Prop
  | [] => True
  | e :: held => (e.2 = false → irqs_on held → low e.1) ∧ Covered low held

/-- The locks that are below all that the handlers take. -/
def Below (prog : S → List (Op L)) (handler : S → Prop) (rank : L → Nat) (k : L) : Prop :=
  ∀ q, handler q → ∀ l ∈ takes (prog q), rank k < rank l

/-- The locks have an order that the sections keep, also those that interrupt others. -/
structure Ranked (prog : S → List (Op L)) (thread handler : S → Prop) (rank : L → Nat)
    (top : Nat) : Prop where
  bounded : ∀ l, rank l ≤ top
  threads : ∀ p, thread p → Ordered rank (Below prog handler rank) [] (prog p)
  handlers : ∀ p, handler p → Ordered rank (fun _ => True) [] (prog p)

theorem Covered.each {low : L → Prop} {held : List (L × Bool)} (h : Covered low held)
    (hon : irqs_on held) : ∀ e ∈ held, low e.1 := by
  induction held with
  | nil => exact fun e he => absurd he List.not_mem_nil
  | cons a held ih =>
    have hrest : irqs_on held := fun e he => hon e (List.mem_cons_of_mem _ he)
    intro e he
    rcases List.mem_cons.mp he with rfl | he
    · exact h.1 (hon e List.mem_cons_self) hrest
    · exact ih h.2 hrest e he

/-- A section that holds a lock has something to do. -/
theorem Ordered.todo_ne {rank : L → Nat} {low : L → Prop} {f : Frame L}
    (h : Ordered rank low f.held f.todo) {e : L × Bool} (he : e ∈ f.held) : f.todo ≠ [] := by
  intro htodo
  rw [htodo] at h
  rw [h] at he
  exact List.not_mem_nil he

/-! ## The machine -/

/-- The thread of a processor, and the handler that has interrupted it. -/
structure Cpu (L : Type) where
  thread : Frame L
  handler : Option (Frame L)

structure Machine (L C : Type) where
  cpu : C → Cpu L
  owner : L → Option C

def Machine.init : Machine L C := ⟨fun _ => ⟨⟨[], []⟩, none⟩, fun _ => none⟩

inductive Act (C S : Type)
  | start (c : C) (p : S)
  | interrupt (c : C) (p : S)
  | run (c : C)

/-- Only these sections are started, and only these interrupt. -/
def Allowed (thread handler : S → Prop) : Act C S → Prop
  | .start _ p => thread p
  | .interrupt _ p => handler p
  | .run _ => True

/-- The section that is running. -/
def Cpu.frame (u : Cpu L) : Frame L := u.handler.getD u.thread

/-- The locks that a processor holds. -/
def Cpu.locks (u : Cpu L) : List L :=
  ((u.handler.map Frame.held).getD []).map Prod.fst ++ u.thread.held.map Prod.fst

/-- The lock that a processor is about to take. -/
def Cpu.wants (u : Cpu L) : Option L :=
  match u.frame.todo with
  | .lock l _ :: _ => some l
  | _ => none

/-- A processor is inside a section. -/
def Cpu.Busy (u : Cpu L) : Prop := u.handler.isSome ∨ u.thread.todo ≠ []

def Waits (m : Machine L C) (c d : C) : Prop :=
  ∃ l, (m.cpu c).wants = some l ∧ m.owner l = some d

section

variable [DecidableEq L]

/-- The next operation of a section on the processor `c`. -/
def Frame.run (c : C) (owner : L → Option C) (f : Frame L) :
    Option (Frame L × (L → Option C)) :=
  match f.todo with
  | [] => none
  | .lock l b :: ops =>
    if owner l = none then some (⟨ops, (l, b) :: f.held⟩, Function.update owner l (some c))
    else none
  | .unlock l :: ops =>
    match f.held with
    | [] => none
    | e :: held => if e.1 = l then some (⟨ops, held⟩, Function.update owner l none) else none

variable {rank : L → Nat} {low : L → Prop} {c d : C} {owner owner' : L → Option C}
  {f f' : Frame L}

/-- What a section does next. -/
theorem run_cases (h : f.run c owner = some (f', owner')) :
    (∃ l b ops, f.todo = .lock l b :: ops ∧ owner l = none ∧ f' = ⟨ops, (l, b) :: f.held⟩ ∧
      owner' = Function.update owner l (some c)) ∨
    (∃ l b ops held, f.todo = .unlock l :: ops ∧ f.held = (l, b) :: held ∧ f' = ⟨ops, held⟩ ∧
      owner' = Function.update owner l none) := by
  unfold Frame.run at h
  split at h
  · cases h
  · rename_i l b ops htodo
    split at h
    · rename_i hfree
      cases h
      exact Or.inl ⟨l, b, ops, htodo, hfree, rfl, rfl⟩
    · cases h
  · rename_i l ops htodo
    split at h
    · cases h
    · rename_i e held hheld
      split at h
      · rename_i he
        cases h
        subst he
        exact Or.inr ⟨e.1, e.2, ops, held, htodo, hheld, rfl, rfl⟩
      · cases h

/-- A section that is in order can go on, when the lock it wants is free. -/
theorem Ordered.runs (h : Ordered rank low f.held f.todo) (c : C) (owner : L → Option C)
    (hne : f.todo ≠ []) :
    (f.run c owner).isSome ∨ ∃ l b ops, f.todo = .lock l b :: ops ∧ (owner l).isSome ∧
      ∀ e ∈ f.held, rank e.1 < rank l := by
  unfold Frame.run
  cases htodo : f.todo with
  | nil => exact absurd htodo hne
  | cons op ops =>
    rw [htodo] at h
    cases op with
    | lock l b =>
      cases howner : owner l with
      | none =>
        left
        simp [howner]
      | some d =>
        right
        exact ⟨l, b, ops, rfl, by simp [howner], h.1⟩
    | unlock l =>
      obtain ⟨b, rest, hheld, _⟩ := h
      left
      simp [hheld]

/-- An operation leaves a section in order. -/
theorem Ordered.run (h : Ordered rank low f.held f.todo)
    (hrun : f.run c owner = some (f', owner')) : Ordered rank low f'.held f'.todo := by
  rcases run_cases hrun with ⟨l, b, ops, htodo, _, rfl, _⟩ | ⟨l, b, ops, held, htodo, hheld, rfl, _⟩
  · rw [htodo] at h
    exact h.2.2
  · rw [htodo, hheld] at h
    obtain ⟨b', rest, heq, hrest⟩ := h
    rw [List.cons.injEq] at heq
    rw [heq.2]
    exact hrest

theorem Covered.run (h : Covered low f.held) (hord : Ordered rank low f.held f.todo)
    (hrun : f.run c owner = some (f', owner')) : Covered low f'.held := by
  rcases run_cases hrun with ⟨l, b, ops, htodo, _, rfl, _⟩ | ⟨l, b, ops, held, _, hheld, rfl, _⟩
  · rw [htodo] at hord
    exact ⟨hord.2.1, h⟩
  · rw [hheld] at h
    exact h.2

/-- What a section holds or takes after an operation, it held or took before. -/
theorem above_run {P : L → Prop} (hheld : ∀ e ∈ f.held, P e.1) (htakes : ∀ l ∈ takes f.todo, P l)
    (hrun : f.run c owner = some (f', owner')) :
    (∀ e ∈ f'.held, P e.1) ∧ ∀ l ∈ takes f'.todo, P l := by
  rcases run_cases hrun with ⟨l, b, ops, htodo, _, rfl, _⟩ | ⟨l, b, ops, held, htodo, heq, rfl, _⟩
  · rw [htodo] at htakes
    refine ⟨?_, fun k hk => htakes k (List.mem_cons_of_mem _ hk)⟩
    intro e he
    rcases List.mem_cons.mp he with rfl | he
    · exact htakes _ List.mem_cons_self
    · exact hheld e he
  · rw [htodo] at htakes
    rw [heq] at hheld
    exact ⟨fun e he => hheld e (List.mem_cons_of_mem _ he), htakes⟩

/-- The owners after an operation of `c`. -/
theorem owners_run (h : f.run c owner = some (f', owner')) (hdc : d ≠ c) {l : L}
    (hd : owner' l = some d) : owner l = some d := by
  rcases run_cases h with ⟨k, b, ops, _, _, _, rfl⟩ | ⟨k, b, ops, held, _, _, _, rfl⟩
  · by_cases hl : l = k
    · subst hl
      rw [Function.update_self] at hd
      exact absurd (Option.some.inj hd).symm hdc
    · rwa [Function.update_of_ne hl] at hd
  · by_cases hl : l = k
    · subst hl
      simp at hd
    · rwa [Function.update_of_ne hl] at hd

/-- What `c` owns after its operation. -/
theorem owns_run (h : f.run c owner = some (f', owner')) {l : L} (hl : owner' l = some c) :
    l ∈ f'.held.map Prod.fst ∨
      owner l = some c ∧ (l ∈ f.held.map Prod.fst → l ∈ f'.held.map Prod.fst) := by
  rcases run_cases h with ⟨k, b, ops, _, _, rfl, rfl⟩ | ⟨k, b, ops, held, _, hheld, rfl, rfl⟩
  · by_cases hk : l = k
    · subst hk
      exact Or.inl (by simp)
    · rw [Function.update_of_ne hk] at hl
      refine Or.inr ⟨hl, fun hm => ?_⟩
      rw [List.map_cons]
      exact List.mem_cons_of_mem _ hm
  · by_cases hk : l = k
    · subst hk
      simp at hl
    · rw [Function.update_of_ne hk] at hl
      refine Or.inr ⟨hl, fun hm => ?_⟩
      rw [hheld, List.map_cons, List.mem_cons] at hm
      exact hm.resolve_left hk

end

/-! ## The invariant -/

structure Sound (prog : S → List (Op L)) (handler : S → Prop) (rank : L → Nat)
    (m : Machine L C) : Prop where
  thread : ∀ c, Ordered rank (Below prog handler rank) (m.cpu c).thread.held (m.cpu c).thread.todo
  covered : ∀ c, Covered (Below prog handler rank) (m.cpu c).thread.held
  handler : ∀ c f, (m.cpu c).handler = some f → Ordered rank (fun _ => True) f.held f.todo
  /-- What a handler takes is above what the thread holds that it has interrupted. -/
  above : ∀ c f, (m.cpu c).handler = some f → ∀ k ∈ (m.cpu c).thread.held,
    (∀ l ∈ f.held, rank k.1 < rank l.1) ∧ ∀ l ∈ takes f.todo, rank k.1 < rank l
  owned : ∀ l c, m.owner l = some c → l ∈ (m.cpu c).locks

theorem sound_init {prog : S → List (Op L)} {handler : S → Prop} {rank : L → Nat} :
    Sound prog handler rank (Machine.init : Machine L C) := by
  constructor <;> simp [Machine.init, Ordered, Covered]

/-- Who owns a lock is inside a section. -/
theorem busy_of_owner {prog : S → List (Op L)} {handler : S → Prop} {rank : L → Nat}
    {m : Machine L C} (hs : Sound prog handler rank m) {l : L} {c : C} (h : m.owner l = some c) :
    (m.cpu c).Busy := by
  rcases List.mem_append.mp (hs.owned l c h) with hl | hl
  · left
    cases hh : (m.cpu c).handler with
    | none =>
      rw [hh] at hl
      simp at hl
    | some f => rfl
  · right
    obtain ⟨e, he, _⟩ := List.mem_map.mp hl
    exact (hs.thread c).todo_ne he

section

variable [DecidableEq C]

def Machine.set (m : Machine L C) (c : C) (u : Cpu L) (owner : L → Option C) : Machine L C :=
  ⟨Function.update m.cpu c u, owner⟩

@[simp] theorem set_cpu_self (m : Machine L C) (c : C) (u : Cpu L) (owner : L → Option C) :
    (m.set c u owner).cpu c = u := by
  simp [Machine.set]

theorem set_cpu_of_ne (m : Machine L C) {c d : C} (h : d ≠ c) (u : Cpu L) (owner : L → Option C) :
    (m.set c u owner).cpu d = m.cpu d := by
  simp [Machine.set, Function.update_of_ne h]

@[simp] theorem set_owner (m : Machine L C) (c : C) (u : Cpu L) (owner : L → Option C) :
    (m.set c u owner).owner = owner := rfl

theorem set_self {m : Machine L C} {c : C} {u : Cpu L} (h : m.cpu c = u) :
    m.set c u m.owner = m := by
  subst h
  simp [Machine.set]

@[simp] theorem set_set (m : Machine L C) (c : C) (u v : Cpu L) (o o' : L → Option C) :
    (m.set c u o).set c v o' = m.set c v o' := by
  simp [Machine.set]

variable {prog : S → List (Op L)} {thread handler : S → Prop} {rank : L → Nat} {top : Nat}
  {m t : Machine L C}

/-! ## What a step keeps -/

/-- One processor changes, and the owners with it. -/
theorem Sound.set (hs : Sound prog handler rank m) {c : C} {u : Cpu L} {owner : L → Option C}
    (hthread : Ordered rank (Below prog handler rank) u.thread.held u.thread.todo)
    (hcovered : Covered (Below prog handler rank) u.thread.held)
    (hhandler : ∀ f, u.handler = some f → Ordered rank (fun _ => True) f.held f.todo ∧
      ∀ k ∈ u.thread.held,
        (∀ l ∈ f.held, rank k.1 < rank l.1) ∧ ∀ l ∈ takes f.todo, rank k.1 < rank l)
    (howns : ∀ l, owner l = some c → l ∈ u.locks)
    (howners : ∀ l d, d ≠ c → owner l = some d → m.owner l = some d) :
    Sound prog handler rank (m.set c u owner) := by
  constructor
  · intro d
    by_cases hd : d = c
    · subst hd
      simpa [Machine.set] using hthread
    · simpa [Machine.set, Function.update_of_ne hd] using hs.thread d
  · intro d
    by_cases hd : d = c
    · subst hd
      simpa [Machine.set] using hcovered
    · simpa [Machine.set, Function.update_of_ne hd] using hs.covered d
  · intro d f hf
    by_cases hd : d = c
    · subst hd
      simp only [Machine.set, Function.update_self] at hf
      exact (hhandler f hf).1
    · simp only [Machine.set, Function.update_of_ne hd] at hf
      exact hs.handler d f hf
  · intro d f hf
    by_cases hd : d = c
    · subst hd
      simp only [Machine.set, Function.update_self] at hf ⊢
      exact (hhandler f hf).2
    · simp only [Machine.set, Function.update_of_ne hd] at hf ⊢
      exact hs.above d f hf
  · intro l d hl
    by_cases hd : d = c
    · subst hd
      simpa [Machine.set] using howns l hl
    · simpa [Machine.set, Function.update_of_ne hd] using hs.owned l d (howners l d hd hl)

theorem Sound.start (hs : Sound prog handler rank m) (hr : Ranked prog thread handler rank top)
    {c : C} {p : S} (hp : thread p) (hidle : (m.cpu c).thread.todo = []) :
    Sound prog handler rank
      (m.set c { m.cpu c with thread := ⟨prog p, (m.cpu c).thread.held⟩ } m.owner) := by
  have hheld : (m.cpu c).thread.held = [] := by
    have := hs.thread c
    rwa [hidle] at this
  apply hs.set
  · rw [hheld]
    exact hr.threads p hp
  · exact hs.covered c
  · exact fun f hf => ⟨hs.handler c f hf, hs.above c f hf⟩
  · exact fun l hl => hs.owned l c hl
  · exact fun l d _ hl => hl

theorem Sound.interrupt (hs : Sound prog handler rank m) (hr : Ranked prog thread handler rank top)
    {c : C} {p : S} (hp : handler p) (hnone : (m.cpu c).handler = none)
    (hon : irqs_on (m.cpu c).thread.held) :
    Sound prog handler rank (m.set c { m.cpu c with handler := some ⟨prog p, []⟩ } m.owner) := by
  apply hs.set
  · exact hs.thread c
  · exact hs.covered c
  · rintro f hf
    cases hf
    refine ⟨hr.handlers p hp, fun k hk => ⟨by simp, fun l hl => ?_⟩⟩
    exact (hs.covered c).each hon k hk p hp l hl
  · intro l hl
    have := hs.owned l c hl
    simpa [Cpu.locks, hnone] using this
  · exact fun l d _ hl => hl

/-- A handler that has nothing left to do returns. -/
theorem Sound.leave (hs : Sound prog handler rank m) {c : C} {f : Frame L}
    (hf : (m.cpu c).handler = some f) (htodo : f.todo = []) :
    Sound prog handler rank (m.set c { m.cpu c with handler := none } m.owner) := by
  have hheld : f.held = [] := by
    have := hs.handler c f hf
    rwa [htodo] at this
  apply hs.set
  · exact hs.thread c
  · exact hs.covered c
  · rintro g ⟨⟩
  · intro l hl
    have := hs.owned l c hl
    simpa [Cpu.locks, hf, hheld] using this
  · exact fun l d _ hl => hl

variable [DecidableEq L]

/-- The handler goes before the thread. -/
def step (prog : S → List (Op L)) (m : Machine L C) : Act C S → Option (Machine L C)
  | .start c p =>
    let u := m.cpu c
    if u.thread.todo = [] ∧ u.handler.isNone then
      some (m.set c { u with thread := ⟨prog p, u.thread.held⟩ } m.owner)
    else none
  | .interrupt c p =>
    let u := m.cpu c
    if u.handler.isNone ∧ irqs_on u.thread.held then
      some (m.set c { u with handler := some ⟨prog p, []⟩ } m.owner)
    else none
  | .run c =>
    let u := m.cpu c
    match u.handler with
    | none => (u.thread.run c m.owner).map (fun r => m.set c { u with thread := r.1 } r.2)
    | some f =>
      if f.todo = [] then some (m.set c { u with handler := none } m.owner)
      else (f.run c m.owner).map (fun r => m.set c { u with handler := some r.1 } r.2)

/-- The next operation of the processor is possible. -/
def Runs (prog : S → List (Op L)) (m : Machine L C) (c : C) : Prop :=
  (step prog m (.run c)).isSome

/-- Whoever is inside a section runs, or waits for one who waits for one ... who runs. -/
def NoDeadlock (prog : S → List (Op L)) (m : Machine L C) : Prop :=
  ∀ c, (m.cpu c).Busy → ∃ d, ReflTransGen (Waits m) c d ∧ Runs prog m d

/-! ## Two processors that wait for each other -/

theorem not_runs {c d : C} {l : L} (hw : (m.cpu c).wants = some l) (ho : m.owner l = some d) :
    ¬ Runs prog m c := by
  unfold Runs
  simp only [step]
  unfold Cpu.wants Cpu.frame at hw
  cases hh : (m.cpu c).handler with
  | none =>
    rw [hh, Option.getD_none] at hw
    unfold Frame.run
    cases htodo : (m.cpu c).thread.todo with
    | nil => simp
    | cons op ops =>
      rw [htodo] at hw
      cases op with
      | lock k b =>
        cases hw
        simp [ho]
      | unlock k => cases hw
  | some f =>
    rw [hh, Option.getD_some] at hw
    unfold Frame.run
    cases htodo : f.todo with
    | nil =>
      rw [htodo] at hw
      cases hw
    | cons op ops =>
      rw [htodo] at hw
      cases op with
      | lock k b =>
        cases hw
        simp [htodo, ho]
      | unlock k => cases hw

theorem deadlock_of_pair {a b : C} {k l : L} (ha : (m.cpu a).wants = some k)
    (hk : m.owner k = some b) (hb : (m.cpu b).wants = some l) (hl : m.owner l = some a)
    (hbusy : (m.cpu a).Busy) : ¬ NoDeadlock prog m := by
  intro hn
  obtain ⟨d, hd, hrun⟩ := hn a hbusy
  have hpair : d = a ∨ d = b := by
    clear hrun
    induction hd with
    | refl => exact Or.inl rfl
    | tail _ hstep ih =>
      obtain ⟨j, hj, howner⟩ := hstep
      rcases ih with rfl | rfl
      · cases ha.symm.trans hj
        exact Or.inr (Option.some.inj (howner.symm.trans hk))
      · cases hb.symm.trans hj
        exact Or.inl (Option.some.inj (howner.symm.trans hl))
  rcases hpair with rfl | rfl
  · exact not_runs ha hk hrun
  · exact not_runs hb hl hrun

/-! ## A thread that is not interrupted -/

theorem step_lock {c : C} {l : L} {b : Bool} {ops : List (Op L)} {held : List (L × Bool)}
    (hu : m.cpu c = ⟨⟨.lock l b :: ops, held⟩, none⟩) (hfree : m.owner l = none) :
    step prog m (.run c) = some
      (m.set c ⟨⟨ops, (l, b) :: held⟩, none⟩ (Function.update m.owner l (some c))) := by
  simp [step, hu, Frame.run, hfree]

theorem step_unlock {c : C} {l : L} {b : Bool} {ops : List (Op L)} {held : List (L × Bool)}
    (hu : m.cpu c = ⟨⟨.unlock l :: ops, (l, b) :: held⟩, none⟩) :
    step prog m (.run c) =
      some (m.set c ⟨⟨ops, held⟩, none⟩ (Function.update m.owner l none)) := by
  simp [step, hu, Frame.run]

/-- A free lock is taken and released, and the owners are as before. -/
theorem reachable_lock_unlock {s : Machine L C} {c : C} {l : L} {b : Bool} {ops : List (Op L)}
    {held : List (L × Bool)}
    (h : ReachableUnder (step prog) (fun _ => Allowed thread handler) s m)
    (hu : m.cpu c = ⟨⟨.lock l b :: .unlock l :: ops, held⟩, none⟩) (hfree : m.owner l = none) :
    ReachableUnder (step prog) (fun _ => Allowed thread handler) s
      (m.set c ⟨⟨ops, held⟩, none⟩ m.owner) := by
  have hrun : Allowed thread handler (.run c : Act C S) := trivial
  have htaken := h.snoc hrun (step_lock hu hfree)
  have hback := htaken.snoc hrun (step_unlock (set_cpu_self _ _ _ _))
  simpa [← hfree] using hback

/-! ## What a run keeps -/

theorem Sound.run_thread (hs : Sound prog handler rank m) {c : C} {f : Frame L}
    {owner : L → Option C} (hnone : (m.cpu c).handler = none)
    (hrun : (m.cpu c).thread.run c m.owner = some (f, owner)) :
    Sound prog handler rank (m.set c { m.cpu c with thread := f } owner) := by
  apply hs.set
  · exact (hs.thread c).run hrun
  · exact (hs.covered c).run (hs.thread c) hrun
  · intro g hg
    rw [hnone] at hg
    cases hg
  · intro l hl
    rcases owns_run hrun hl with h | ⟨h, hkeep⟩
    · simpa [Cpu.locks, hnone] using h
    · have := hs.owned l c h
      simp only [Cpu.locks, hnone, Option.map_none, Option.getD_none, List.map_nil,
        List.nil_append] at this ⊢
      exact hkeep this
  · exact fun l d hd hl => owners_run hrun hd hl

theorem Sound.run_handler (hs : Sound prog handler rank m) {c : C} {f g : Frame L}
    {owner : L → Option C} (hf : (m.cpu c).handler = some f)
    (hrun : f.run c m.owner = some (g, owner)) :
    Sound prog handler rank (m.set c { m.cpu c with handler := some g } owner) := by
  apply hs.set
  · exact hs.thread c
  · exact hs.covered c
  · rintro g' hg
    cases hg
    refine ⟨(hs.handler c f hf).run hrun, fun k hk => ?_⟩
    exact above_run (hs.above c f hf k hk).1 (hs.above c f hf k hk).2 hrun
  · intro l hl
    rcases owns_run hrun hl with h | ⟨h, hkeep⟩
    · exact List.mem_append_left _ h
    · rcases List.mem_append.mp (hs.owned l c h) with h | h
      · rw [hf] at h
        exact List.mem_append_left _ (hkeep h)
      · exact List.mem_append_right _ h
  · exact fun l d hd hl => owners_run hrun hd hl

theorem Sound.step (hs : Sound prog handler rank m) (hr : Ranked prog thread handler rank top)
    {a : Act C S} (ha : Allowed thread handler a) (ht : lock_order.step prog m a = some t) :
    Sound prog handler rank t := by
  cases a with
  | start c p =>
    simp only [lock_order.step] at ht
    split at ht
    · rename_i hidle
      cases ht
      exact hs.start hr ha hidle.1
    · cases ht
  | interrupt c p =>
    simp only [lock_order.step] at ht
    split at ht
    · rename_i hon
      cases ht
      exact hs.interrupt hr ha (Option.isNone_iff_eq_none.mp hon.1) hon.2
    · cases ht
  | run c =>
    simp only [lock_order.step] at ht
    split at ht
    · rename_i hnone
      obtain ⟨r, hrun, rfl⟩ := Option.map_eq_some_iff.mp ht
      exact hs.run_thread hnone hrun
    · rename_i f hf
      split at ht
      · rename_i htodo
        cases ht
        exact hs.leave hf htodo
      · obtain ⟨r, hrun, rfl⟩ := Option.map_eq_some_iff.mp ht
        exact hs.run_handler hf hrun

/-! ## No deadlock -/

/-- A processor inside a section runs, or waits for a lock that is above all it holds. -/
theorem busy_cases (hs : Sound prog handler rank m) {c : C} (hb : (m.cpu c).Busy) :
    Runs prog m c ∨ ∃ l d, (m.cpu c).wants = some l ∧ m.owner l = some d ∧
      ∀ k ∈ (m.cpu c).locks, rank k < rank l := by
  unfold Runs
  simp only [lock_order.step]
  cases hh : (m.cpu c).handler with
  | none =>
    have hne : (m.cpu c).thread.todo ≠ [] := by
      rcases hb with h | h
      · rw [hh] at h
        cases h
      · exact h
    rcases (hs.thread c).runs c m.owner hne with h | ⟨l, b, ops, htodo, howner, habove⟩
    · left
      simpa using h
    · right
      obtain ⟨d, hd⟩ := Option.isSome_iff_exists.mp howner
      refine ⟨l, d, by simp [Cpu.wants, Cpu.frame, hh, htodo], hd, ?_⟩
      intro k hk
      simp only [Cpu.locks, hh, Option.map_none, Option.getD_none, List.map_nil, List.nil_append,
        List.mem_map] at hk
      obtain ⟨e, he, rfl⟩ := hk
      exact habove e he
  | some f =>
    by_cases htodo : f.todo = []
    · left
      simp [htodo]
    · rcases (hs.handler c f hh).runs c m.owner htodo with h | ⟨l, b, ops, heq, howner, habove⟩
      · left
        simpa [htodo] using h
      · right
        obtain ⟨d, hd⟩ := Option.isSome_iff_exists.mp howner
        refine ⟨l, d, by simp [Cpu.wants, Cpu.frame, hh, heq], hd, ?_⟩
        intro k hk
        simp only [Cpu.locks, hh, Option.map_some, Option.getD_some, List.mem_append,
          List.mem_map] at hk
        rcases hk with ⟨e, he, rfl⟩ | ⟨e, he, rfl⟩
        · exact habove e he
        · have := (hs.above c f hh e he).2 l
          rw [heq] at this
          exact this List.mem_cons_self

/-- When the locks have an order, the waiting ends at one who runs. -/
theorem Sound.no_deadlock (hs : Sound prog handler rank m)
    (hr : Ranked prog thread handler rank top) : NoDeadlock prog m := by
  have hwait : ∀ n l c, top - rank l = n → m.owner l = some c →
      ∃ d, ReflTransGen (Waits m) c d ∧ Runs prog m d := by
    intro n
    induction n using Nat.strongRecOn with
    | ind n ih =>
      intro l c hn hl
      rcases busy_cases hs (busy_of_owner hs hl) with hrun | ⟨k, d, hk, hd, habove⟩
      · exact ⟨c, .refl, hrun⟩
      · have hlt := habove l (hs.owned l c hl)
        have hk' := hr.bounded k
        obtain ⟨e, hde, he⟩ := ih (top - rank k) (by omega) k d rfl hd
        exact ⟨e, .head ⟨k, hk, hd⟩ hde, he⟩
  intro c hb
  rcases busy_cases hs hb with hrun | ⟨k, d, hk, hd, _⟩
  · exact ⟨c, .refl, hrun⟩
  · obtain ⟨e, hde, he⟩ := hwait _ k d rfl hd
    exact ⟨e, .head ⟨k, hk, hd⟩ hde, he⟩

theorem no_deadlock_run (hr : Ranked prog thread handler rank top)
    (h : ReachableUnder (lock_order.step prog) (fun _ => Allowed thread handler) Machine.init m) :
    NoDeadlock prog m := by
  have hs : Sound prog handler rank m := by
    apply ReachableUnder.inv (Sound prog handler rank) _ sound_init h
    intro s a t hs ha ht
    exact hs.step hr ha ht
  exact hs.no_deadlock hr

end

end lock_order
