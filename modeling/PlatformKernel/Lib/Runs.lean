-- Runs of a machine that takes one step at a time. A label of a step holds
-- all that the environment decides, so a step is a function: it gives the
-- next state, or nothing when the step is not possible there.
import Mathlib.Data.List.Basic

namespace step_runs

variable {σ α : Type}

/-- The state after the steps of the list, or nothing when one of them is not possible. -/
def run (step : σ → α → Option σ) : σ → List α → Option σ
  | s, [] => some s
  | s, a :: as => (step s a).bind (fun t => run step t as)

/-- Each step of the list meets the condition in the state it is taken in. -/
def Meets (step : σ → α → Option σ) (C : σ → α → Prop) : σ → List α → Prop
  | _, [] => True
  | s, a :: as => C s a ∧ ∀ t, step s a = some t → Meets step C t as

/-- The property holds in every state that the run of the list passes, the first one included. -/
def Always (step : σ → α → Option σ) (P : σ → Prop) : σ → List α → Prop
  | s, [] => P s
  | s, a :: as => P s ∧ ∀ t, step s a = some t → Always step P t as

/-- The states that some list of steps leads to. -/
def Reachable (step : σ → α → Option σ) (s t : σ) : Prop := ∃ as, run step s as = some t

/-- The states that a list of steps leads to when each of them meets the condition. -/
def ReachableUnder (step : σ → α → Option σ) (C : σ → α → Prop) (s t : σ) : Prop :=
  ∃ as, Meets step C s as ∧ run step s as = some t

variable {step : σ → α → Option σ} {C : σ → α → Prop}

@[simp] theorem run_cons (s : σ) (a : α) (as : List α) :
    run step s (a :: as) = (step s a).bind (fun t => run step t as) := rfl

theorem run_append (s : σ) (as bs : List α) :
    run step s (as ++ bs) = (run step s as).bind (fun t => run step t bs) := by
  induction as generalizing s with
  | nil => rfl
  | cons a as ih =>
    simp only [List.cons_append, run_cons, Option.bind_assoc]
    rcases step s a with _ | t
    · rfl
    · exact ih t

/-- A step that meets the condition, and a run from where it leads. -/
theorem Meets.cons {s t : σ} {a : α} {as : List α} (hc : C s a) (ht : step s a = some t)
    (h : Meets step C t as) : Meets step C s (a :: as) := by
  refine ⟨hc, fun u hu => ?_⟩
  cases ht.symm.trans hu
  exact h

/-- Another condition that each step meets with the first one. -/
theorem Meets.mono {D : σ → α → Prop} {s : σ} {as : List α} (h : Meets step C s as)
    (hcd : ∀ s a, C s a → D s a) : Meets step D s as := by
  induction as generalizing s with
  | nil => exact trivial
  | cons a as ih => exact ⟨hcd s a h.1, fun t ht => ih (h.2 t ht)⟩

/-- A condition on the labels alone. -/
theorem meets_of_forall {as : List α} (h : ∀ a ∈ as, ∀ s, C s a) (s : σ) : Meets step C s as := by
  induction as generalizing s with
  | nil => exact trivial
  | cons a as ih =>
    refine ⟨h a List.mem_cons_self s, fun t _ => ?_⟩
    exact ih (fun b hb => h b (List.mem_cons_of_mem _ hb)) t

/-- Two runs that meet the condition, one after the other. -/
theorem Meets.append {s t : σ} {as bs : List α} (h : Meets step C s as)
    (hr : run step s as = some t) (h' : Meets step C t bs) : Meets step C s (as ++ bs) := by
  induction as generalizing s with
  | nil => cases hr; exact h'
  | cons a as ih =>
    obtain ⟨u, hu, hr⟩ := Option.bind_eq_some_iff.mp hr
    exact Meets.cons h.1 hu (ih (h.2 u hu) hr)

/-- An invariant that each step meeting the condition keeps holds after every run whose
steps all meet it. -/
theorem run_inv_of_meets (I : σ → Prop)
    (hstep : ∀ s a t, I s → C s a → step s a = some t → I t) {s t : σ} {as : List α}
    (hs : I s) (hm : Meets step C s as) (hr : run step s as = some t) : I t := by
  induction as generalizing s with
  | nil => cases hr; exact hs
  | cons a as ih =>
    obtain ⟨u, hu, hr⟩ := Option.bind_eq_some_iff.mp hr
    exact ih (hstep s a u hs hm.1 hu) (hm.2 u hu) hr

/-- An invariant that every step keeps holds after every run. -/
theorem run_inv (I : σ → Prop) (hstep : ∀ s a t, I s → step s a = some t → I t)
    {s t : σ} {as : List α} (hs : I s) (hr : run step s as = some t) : I t := by
  induction as generalizing s with
  | nil => cases hr; exact hs
  | cons a as ih =>
    obtain ⟨u, hu, hr⟩ := Option.bind_eq_some_iff.mp hr
    exact ih (hstep s a u hs hu) hr

/-- A law about a run and the state it leads to, which each further step that meets the condition
keeps, holds of every run whose steps all meet it. -/
theorem trace_inv_of_meets (I : List α → σ → Prop) {s₀ : σ} (h₀ : I [] s₀)
    (hstep : ∀ pre s a t, run step s₀ pre = some s → I pre s → C s a → step s a = some t →
      I (pre ++ [a]) t) {as : List α} {t : σ} (hm : Meets step C s₀ as)
    (hr : run step s₀ as = some t) : I as t := by
  have hgen : ∀ (as pre : List α) (s : σ), run step s₀ pre = some s → I pre s →
      Meets step C s as → run step s as = some t → I (pre ++ as) t := by
    intro as
    induction as with
    | nil =>
      intro pre s _ hs _ hr
      cases hr
      rw [List.append_nil]
      exact hs
    | cons a as ih =>
      intro pre s hpre hs hm hr
      obtain ⟨u, hu, hr⟩ := Option.bind_eq_some_iff.mp hr
      have hsnoc : run step s₀ (pre ++ [a]) = some u := by
        rw [run_append, hpre]
        exact (by rw [Option.bind_some, run_cons, hu]; rfl)
      have := ih (pre ++ [a]) u hsnoc (hstep pre s a u hpre hs hm.1 hu) (hm.2 u hu) hr
      rw [List.append_assoc] at this
      exact this
  exact hgen as [] s₀ rfl h₀ hm hr

/-- A law about a run and the state it leads to, which each further step keeps, holds of every
run. -/
theorem run_trace_inv (I : List α → σ → Prop) {s₀ : σ} (h₀ : I [] s₀)
    (hstep : ∀ pre s a t, run step s₀ pre = some s → I pre s → step s a = some t →
      I (pre ++ [a]) t) {as : List α} {t : σ} (hr : run step s₀ as = some t) : I as t :=
  trace_inv_of_meets (C := fun _ _ => True) I h₀
    (fun pre s a t hpre hs _ ht => hstep pre s a t hpre hs ht)
    (meets_of_forall (fun _ _ _ => trivial) s₀) hr

theorem Always.head {P : σ → Prop} {s : σ} {as : List α} (h : Always step P s as) : P s := by
  cases as with
  | nil => exact h
  | cons a as => exact h.1

theorem Always.last {P : σ → Prop} {s t : σ} {as : List α} (h : Always step P s as)
    (hr : run step s as = some t) : P t := by
  induction as generalizing s with
  | nil => cases hr; exact h
  | cons a as ih =>
    obtain ⟨u, hu, hr⟩ := Option.bind_eq_some_iff.mp hr
    exact ih (h.2 u hu) hr

/-- When a condition says exactly which steps keep a property, a run has the property throughout
if and only if its steps all meet the condition. -/
theorem always_iff_meets (I P : σ → Prop) (hkeep : ∀ s a t, I s → step s a = some t → I t)
    (hstep : ∀ s a t, I s → P s → step s a = some t → (P t ↔ C s a)) {s t : σ} {as : List α}
    (hs : I s) (hp : P s) (hr : run step s as = some t) :
    Always step P s as ↔ Meets step C s as := by
  induction as generalizing s with
  | nil => exact ⟨fun _ => trivial, fun _ => hp⟩
  | cons a as ih =>
    obtain ⟨u, hu, hr⟩ := Option.bind_eq_some_iff.mp hr
    have hiff := hstep s a u hs hp hu
    constructor
    · intro h
      have hrest := h.2 u hu
      exact Meets.cons (hiff.mp hrest.head) hu ((ih (hkeep s a u hs hu) hrest.head hr).mp hrest)
    · intro h
      refine ⟨hp, fun v hv => ?_⟩
      cases hu.symm.trans hv
      exact (ih (hkeep s a u hs hu) (hiff.mpr h.1) hr).mpr (h.2 u hu)

theorem Reachable.inv (I : σ → Prop) (hstep : ∀ s a t, I s → step s a = some t → I t)
    {s t : σ} (hs : I s) (hr : Reachable step s t) : I t := by
  obtain ⟨as, hr⟩ := hr
  exact run_inv I hstep hs hr

theorem ReachableUnder.inv (I : σ → Prop)
    (hstep : ∀ s a t, I s → C s a → step s a = some t → I t) {s t : σ}
    (hs : I s) (hr : ReachableUnder step C s t) : I t := by
  obtain ⟨as, hm, hr⟩ := hr
  exact run_inv_of_meets I hstep hs hm hr

/-- One more step that meets the condition. -/
theorem ReachableUnder.snoc {s t u : σ} {a : α} (h : ReachableUnder step C s t) (ha : C t a)
    (hu : step t a = some u) : ReachableUnder step C s u := by
  obtain ⟨as, hm, hr⟩ := h
  refine ⟨as ++ [a], hm.append hr (Meets.cons ha hu trivial), ?_⟩
  rw [run_append, hr]
  simp [run, hu]

end step_runs
