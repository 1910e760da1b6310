-- Ledgers of resources: what is held, with how often, and the releases of what
-- was not held. A component that is bound and unbound over and over keeps its
-- ledger balanced when what each binding acquires the unbinding releases.
import Mathlib.Data.Multiset.AddSub
import PlatformKernel.Lib.Runs

namespace ledger

open step_runs

variable {ρ : Type}

/-- What is held, and what was released without being held. -/
structure Ledger (ρ : Type) where
  held : Multiset ρ
  faults : Multiset ρ

@[ext] theorem Ledger.ext' {l m : Ledger ρ} (hheld : l.held = m.held)
    (hfaults : l.faults = m.faults) : l = m := by
  cases l
  cases m
  simp_all

def Ledger.empty : Ledger ρ := ⟨0, 0⟩

def Ledger.acquire (l : Ledger ρ) (r : ρ) : Ledger ρ := { l with held := r ::ₘ l.held }

def Ledger.acquire_all (l : Ledger ρ) (rs : List ρ) : Ledger ρ := rs.foldl Ledger.acquire l

section

@[simp] theorem held_acquire (l : Ledger ρ) (r : ρ) : (l.acquire r).held = r ::ₘ l.held := rfl

@[simp] theorem faults_acquire (l : Ledger ρ) (r : ρ) : (l.acquire r).faults = l.faults := rfl

@[simp] theorem acquire_all_nil (l : Ledger ρ) : l.acquire_all [] = l := rfl

@[simp] theorem acquire_all_cons (l : Ledger ρ) (r : ρ) (rs : List ρ) :
    l.acquire_all (r :: rs) = (l.acquire r).acquire_all rs := rfl

theorem acquire_all_append (l : Ledger ρ) (rs qs : List ρ) :
    l.acquire_all (rs ++ qs) = (l.acquire_all rs).acquire_all qs := by
  simp [Ledger.acquire_all]

@[simp] theorem faults_acquire_all (l : Ledger ρ) (rs : List ρ) :
    (l.acquire_all rs).faults = l.faults := by
  induction rs generalizing l with
  | nil => simp
  | cons r rs ih => simp [ih]

@[simp] theorem held_acquire_all (l : Ledger ρ) (rs : List ρ) :
    (l.acquire_all rs).held = (rs : Multiset ρ) + l.held := by
  induction rs generalizing l with
  | nil => simp
  | cons r rs ih =>
    rw [acquire_all_cons, ih, held_acquire, ← Multiset.cons_coe, Multiset.cons_add,
      Multiset.add_cons]

theorem ne_zero_of_le {m n : Multiset ρ} (h : m ≤ n) (hm : m ≠ 0) : n ≠ 0 := by
  rintro rfl
  exact hm (Multiset.le_zero.mp h)

end

variable [DecidableEq ρ]

def Ledger.release (l : Ledger ρ) (r : ρ) : Ledger ρ :=
  if r ∈ l.held then { l with held := l.held.erase r } else { l with faults := r ::ₘ l.faults }

def Ledger.release_all (l : Ledger ρ) (rs : List ρ) : Ledger ρ := rs.foldl Ledger.release l

variable {l : Ledger ρ} {r x : ρ}

@[simp] theorem release_all_nil (l : Ledger ρ) : l.release_all [] = l := rfl

@[simp] theorem release_all_cons (l : Ledger ρ) (r : ρ) (rs : List ρ) :
    l.release_all (r :: rs) = (l.release r).release_all rs := rfl

theorem release_all_append (l : Ledger ρ) (rs qs : List ρ) :
    l.release_all (rs ++ qs) = (l.release_all rs).release_all qs := by
  simp [Ledger.release_all]

theorem release_of_mem (h : r ∈ l.held) : l.release r = ⟨l.held.erase r, l.faults⟩ := by
  simp [Ledger.release, h]

theorem release_of_not_mem (h : r ∉ l.held) : l.release r = ⟨l.held, r ::ₘ l.faults⟩ := by
  simp [Ledger.release, h]

@[simp] theorem release_acquire (l : Ledger ρ) (r : ρ) : (l.acquire r).release r = l := by
  rw [release_of_mem (by simp)]
  simp

/-- What was acquired can be released, in any order. -/
theorem release_all_acquire_all {rs qs : List ρ} (h : rs.Perm qs) (l : Ledger ρ) :
    (l.acquire_all rs).release_all qs = l := by
  induction qs generalizing rs with
  | nil =>
    rw [List.perm_nil.mp h]
    simp
  | cons q qs ih =>
    have hmem : q ∈ rs := h.symm.subset (by simp)
    have hrel : (l.acquire_all rs).release q = l.acquire_all (rs.erase q) := by
      rw [release_of_mem (by simp [hmem])]
      apply Ledger.ext'
      · rw [held_acquire_all, held_acquire_all, ← Multiset.coe_erase,
          Multiset.erase_add_left_pos _ (by simpa using hmem)]
      · simp
    rw [release_all_cons, hrel]
    apply ih
    rw [← List.perm_cons q]
    exact (List.perm_cons_erase hmem).symm.trans h

/-- A release leaves the count of everything else. -/
theorem count_release_ne (h : r ≠ x) (l : Ledger ρ) :
    (l.release r).held.count x = l.held.count x := by
  unfold Ledger.release
  split
  · exact Multiset.count_erase_of_ne (Ne.symm h) _
  · rfl

theorem count_release_all_of_not_mem {rs : List ρ} (h : x ∉ rs) (l : Ledger ρ) :
    (l.release_all rs).held.count x = l.held.count x := by
  induction rs generalizing l with
  | nil => rfl
  | cons r rs ih =>
    rw [release_all_cons, ih (fun hx => h (by simp [hx]))]
    exact count_release_ne (fun hr => h (by simp [hr])) l

theorem count_release_self (r : ρ) (l : Ledger ρ) :
    (l.release r).held.count r = l.held.count r - 1 := by
  unfold Ledger.release
  split
  · simp
  · rename_i h
    rw [Multiset.count_eq_zero_of_notMem h]

/-- A fault stays in the ledger. -/
theorem faults_release (l : Ledger ρ) (r : ρ) : l.faults ≤ (l.release r).faults := by
  unfold Ledger.release
  split
  · exact le_refl _
  · exact Multiset.le_cons_self _ _

theorem faults_release_all (l : Ledger ρ) (rs : List ρ) :
    l.faults ≤ (l.release_all rs).faults := by
  induction rs generalizing l with
  | nil => exact le_refl _
  | cons r rs ih => exact le_trans (faults_release l r) (ih _)

/-- Nothing is held more often behind releases. -/
theorem held_release_all_le (l : Ledger ρ) (rs : List ρ) :
    (l.release_all rs).held ≤ l.held := by
  induction rs generalizing l with
  | nil => exact le_refl _
  | cons r rs ih =>
    apply le_trans (ih _)
    unfold Ledger.release
    split
    · exact Multiset.erase_le _ _
    · exact le_refl _

/-- Among the releases is one of what is not held. -/
theorem faults_of_not_held {rs : List ρ} (hr : r ∈ rs) (h : r ∉ l.held) :
    (l.release_all rs).faults ≠ 0 := by
  obtain ⟨s, t, rfl⟩ := List.append_of_mem hr
  have hs : r ∉ (l.release_all s).held :=
    fun hmem => h (Multiset.mem_of_le (held_release_all_le l s) hmem)
  rw [release_all_append, release_all_cons, release_of_not_mem hs]
  intro h0
  have hle := faults_release_all ⟨(l.release_all s).held, r ::ₘ (l.release_all s).faults⟩ t
  rw [h0] at hle
  exact absurd (Multiset.le_zero.mp hle) Multiset.cons_ne_zero

/-! ## A component that is bound and unbound -/

/-- What binds the component and unbinds it. A binding that gives 0 has succeeded. -/
structure Component (σ ε ρ : Type) where
  probe : ε → σ → σ × Int
  remove : σ → σ
  res : σ → Ledger ρ

structure Bus (σ : Type) where
  state : σ
  bound : Bool

inductive Act (ε : Type)
  | probe (e : ε)
  | remove

variable {σ ε : Type}

def Component.step (c : Component σ ε ρ) (s : Bus σ) : Act ε → Option (Bus σ)
  | .probe e =>
    if s.bound then none
    else
      let r := c.probe e s.state
      some ⟨r.1, r.2 = 0⟩
  | .remove => if s.bound then some ⟨c.remove s.state, false⟩ else none

/-- What the runs of a component rest on: a binding that is not `ready` fails and holds nothing,
every other one has the resource `mark`, and the unbinding gives back one of these. Behind a
binding that is `complete` the unbinding gives back all of it, and behind another one that has
succeeded it releases what is not held. -/
structure Component.Lawful (c : Component σ ε ρ) (ready complete : ε → Bool) (mark : ρ) :
    Prop where
  early : ∀ e s, ready e = false → c.res (c.probe e s).1 = c.res s ∧ (c.probe e s).2 ≠ 0
  marked : ∀ e s, ready e = true →
    (c.res (c.probe e s).1).held.count mark = (c.res s).held.count mark + 1
  unmarked : ∀ s, (c.res (c.remove s)).held.count mark = (c.res s).held.count mark - 1
  faults_probe : ∀ e s, (c.res s).faults ≤ (c.res (c.probe e s).1).faults
  faults_remove : ∀ s, (c.res s).faults ≤ (c.res (c.remove s)).faults
  balanced : ∀ e s, ready e = true → complete e = true →
    (c.probe e s).2 = 0 ∧ c.res (c.remove (c.probe e s).1) = c.res s
  unbalanced : ∀ e s, ready e = true → complete e = false → c.res s = .empty →
    (c.probe e s).2 = 0 → (c.res (c.remove (c.probe e s).1)).faults ≠ 0

/-- The binding of the act, when it is one that got as far as to hold something and stopped. -/
def Act.stopped (ready complete : ε → Bool) : Act ε → Bool
  | .probe e => ready e && !complete e
  | .remove => false

variable {c : Component σ ε ρ} {ready complete : ε → Bool} {mark : ρ}

/-- There was a release of what is not held, or `mark` is held more often than it is bound. -/
def Component.Dirty (c : Component σ ε ρ) (mark : ρ) (s : Bus σ) : Prop :=
  (c.res s.state).faults ≠ 0 ∨ s.bound.toNat < (c.res s.state).held.count mark

/-- A dirty component stays dirty. -/
theorem dirty_step (hc : c.Lawful ready complete mark) {s t : Bus σ} {a : Act ε}
    (hs : c.Dirty mark s) (ht : c.step s a = some t) : c.Dirty mark t := by
  cases a with
  | probe e =>
    simp only [Component.step] at ht
    split at ht
    · cases ht
    rename_i hb
    cases ht
    rcases hs with hf | hm
    · exact Or.inl (ne_zero_of_le (hc.faults_probe e s.state) hf)
    · right
      cases hr : ready e
      · obtain ⟨hres, herr⟩ := hc.early e s.state hr
        simp only [hres, herr, decide_false, Bool.toNat_false]
        exact Nat.lt_of_le_of_lt (Nat.zero_le _) hm
      · simp only [hc.marked e s.state hr]
        have := Bool.toNat_le (decide ((c.probe e s.state).2 = 0))
        omega
  | remove =>
    simp only [Component.step] at ht
    split at ht
    · rename_i hb
      cases ht
      rcases hs with hf | hm
      · exact Or.inl (ne_zero_of_le (hc.faults_remove s.state) hf)
      · right
        simp only [hb, Bool.toNat_true] at hm
        simp only [hc.unmarked, Bool.toNat_false]
        omega
    · cases ht

/-- What a run has made of the ledger: without a stopped binding it holds nothing, or what a
complete binding holds; with one it is dirty, or will be at the next unbinding. -/
def Component.Accounted (c : Component σ ε ρ) (ready complete : ε → Bool) (mark : ρ)
    (as : List (Act ε)) (s : Bus σ) : Prop :=
  if as.any (Act.stopped ready complete) then
    c.Dirty mark s ∨ s.bound = true ∧ (c.res (c.remove s.state)).faults ≠ 0
  else
    (s.bound = false → c.res s.state = .empty) ∧
      (s.bound = true → c.res (c.remove s.state) = .empty)

theorem accounted_step (hc : c.Lawful ready complete mark) {pre : List (Act ε)} {s t : Bus σ}
    {a : Act ε} (hs : c.Accounted ready complete mark pre s) (ht : c.step s a = some t) :
    c.Accounted ready complete mark (pre ++ [a]) t := by
  unfold Component.Accounted at hs ⊢
  rw [List.any_append, List.any_cons, List.any_nil, Bool.or_false]
  cases hpre : pre.any (Act.stopped ready complete)
  case true =>
    rw [hpre, if_pos rfl] at hs
    rw [Bool.true_or, if_pos rfl]
    rcases hs with hd | ⟨hb, hf⟩
    · exact Or.inl (dirty_step hc hd ht)
    · cases a with
      | probe e => simp [Component.step, hb] at ht
      | remove =>
        simp only [Component.step, hb, if_true, Option.some.injEq] at ht
        cases ht
        exact Or.inl (Or.inl hf)
  case false =>
    rw [hpre, if_neg (by simp)] at hs
    obtain ⟨hunbound, hbound⟩ := hs
    rw [Bool.false_or]
    cases a with
    | remove =>
      simp only [Component.step] at ht
      split at ht
      · rename_i hb
        cases ht
        simp [Act.stopped, hbound hb]
      · cases ht
    | probe e =>
      simp only [Component.step] at ht
      split at ht
      · cases ht
      rename_i hb
      have hempty := hunbound (by simpa using hb)
      cases ht
      cases hr : ready e
      · obtain ⟨hres, herr⟩ := hc.early e s.state hr
        simp [Act.stopped, hr, herr, hres, hempty]
      · cases hcomp : complete e
        · -- the binding stops: its mark stays, or the unbinding is behind a success
          simp only [Act.stopped, hr, hcomp, Bool.not_false, Bool.and_true, if_true]
          by_cases herr : (c.probe e s.state).2 = 0
          · right
            exact ⟨by simp [herr], hc.unbalanced e s.state hr hcomp hempty herr⟩
          · left
            right
            simp only [hc.marked e s.state hr, herr, decide_false, Bool.toNat_false]
            omega
        · obtain ⟨herr, hres⟩ := hc.balanced e s.state hr hcomp
          simp [Act.stopped, hcomp, herr, hres, hempty]

/-- A component that starts with an empty ledger and is unbound in the end has an empty ledger
then if and only if none of its bindings stopped behind its start. -/
theorem balanced_iff (hc : c.Lawful ready complete mark) {s t : Bus σ} {as : List (Act ε)}
    (hs : c.res s.state = .empty) (hsb : s.bound = false) (hr : run c.step s as = some t)
    (htb : t.bound = false) :
    c.res t.state = .empty ↔ ∀ e, .probe e ∈ as → ready e = true → complete e = true := by
  have hacc : c.Accounted ready complete mark as t := by
    apply run_trace_inv (c.Accounted ready complete mark) _ _ hr
    · simp [Component.Accounted, hs, hsb]
    · intro pre u a v _ hu hv
      exact accounted_step hc hu hv
  have hany : as.any (Act.stopped ready complete) = false ↔
      ∀ e, .probe e ∈ as → ready e = true → complete e = true := by
    rw [List.any_eq_false]
    constructor
    · intro h e he hready
      have := h _ he
      simpa [Act.stopped, hready] using this
    · intro h a ha
      cases a with
      | remove => simp [Act.stopped]
      | probe e =>
        simp only [Act.stopped, Bool.and_eq_true, Bool.not_eq_true', not_and, Bool.not_eq_false]
        exact h e ha
  rw [← hany]
  unfold Component.Accounted at hacc
  constructor
  · intro hempty
    by_contra hst
    rw [if_pos (by simpa using hst)] at hacc
    rcases hacc with (hf | hm) | ⟨hb, _⟩
    · exact hf (by rw [hempty]; rfl)
    · rw [hempty] at hm
      simp [Ledger.empty] at hm
    · rw [htb] at hb
      cases hb
  · intro hst
    rw [if_neg (by simp [hst])] at hacc
    exact hacc.1 htb

end ledger
