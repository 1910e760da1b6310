-- The count of the signals of the DSP: every wait that returns 0 has used up a
-- signal of its own, unless it found the signal already signaled.
import PlatformKernel.DspSignals

namespace virtual_fastrpc.signal_counts

open keyed completion step_runs virtual_fastrpc.dsp_signals

/-! ## Each signal and its wait -/

/-- The waits for signal `i` that have left the completion, and not returned yet. -/
def wakes (i : Nat) (w : Waiter) : Nat := if w.signal_id = i ∧ w.woken = true then 1 else 0

/-- Every wake-up that is still to be taken, every waiter that has taken one, and every wait
that returned 0 has a signal of its own. -/
structure Accounted (v : View) : Prop where
  unique : Unique Waiter.tid v.waiters
  few : ∀ i, v.zeros i ≤ v.received i
  held : ∀ i, (v.slot i).state = .PENDING ∨ (v.slot i).state = .SIGNALED →
    (v.slot i).comp.done < UINT_MAX ∧
      (v.slot i).comp.done + weight (wakes i) v.waiters + v.zeros i ≤ v.received i

/-- No wait begins on a signal that is already signaled. -/
def Consumes (v : View) : Op → Prop
  | .wait _ i _ => (v.slot i).state ≠ .SIGNALED
  | op => CreatesAfterAll v op

/-- The wake-ups of a signal can still be counted. -/
def Countable (v : View) (i : Nat) : Prop := (v.slot i).comp.done + 1 < UINT_MAX

theorem weight_wakes_map (i : Nat) (l : List Waiter) {g : Waiter → Waiter} (hg : KeepsPlace g) :
    weight (wakes i) (l.map g) = weight (wakes i) l := by
  unfold weight
  rw [List.map_map]
  refine congrArg List.sum (List.map_congr_left (fun w _ => ?_))
  obtain ⟨_, hi, hw⟩ := hg w
  simp [wakes, hi, hw]

theorem remove_of_new {l : List Waiter} {tid : Nat} (h : lookup Waiter.tid l tid = none) :
    remove Waiter.tid l tid = l := by
  rw [remove_eq_alter]
  exact alter_eq_self (lookup_eq_none.mp h)

theorem Accounted.create {v : View} (h : Accounted v) (i : Nat)
    (hall : ∀ w ∈ v.waiters, w.signal_id = i → w.woken = false) : Accounted (v.create i) := by
  have hnone : weight (wakes i) v.waiters = 0 := by
    refine weight_eq_zero (fun w hw => ?_)
    unfold wakes
    split
    · rename_i hy
      rw [hall w hw hy.1] at hy
      cases hy.2
    · rfl
  refine ⟨h.unique, fun j => ?_, fun j hst => ?_⟩
  · by_cases hj : j = i
    · subst hj
      simp [View.create, set_self]
    · simpa [View.create, set_ne hj] using h.few j
  · by_cases hj : j = i
    · subst hj
      simp [View.create, set_self, hnone, UINT_MAX]
    · simp only [View.create, set_ne hj] at hst ⊢
      exact h.held j hst

/-- A wait that does not return 0 leaves the counts. -/
theorem Accounted.finish {v : View} (h : Accounted v) {w : Waiter} (e : Errno)
    (hw : w ∈ v.waiters) (hno : w.woken = false) : Accounted (v.finish w (some e)) := by
  have hwt : ∀ i, weight (wakes i) (remove Waiter.tid v.waiters w.tid) =
      weight (wakes i) v.waiters := by
    intro i
    have := weight_remove h.unique (wakes i) hw rfl
    simp [wakes, hno] at this
    exact this
  refine ⟨h.unique.remove, h.few, fun i hst => ?_⟩
  have := h.held i hst
  simp only [View.finish, hwt]
  exact this

theorem Accounted.take {v : View} (h : Accounted v) {w : Waiter} {c : Completion}
    (hw : w ∈ v.waiters) (hno : w.woken = false)
    (hc : completion.take (v.slot w.signal_id).comp = some c) : Accounted (v.take w c) := by
  have hwt : ∀ i, weight (wakes i) (update Waiter.tid v.waiters w.tid Waiter.wake) =
      weight (wakes i) v.waiters + (if w.signal_id = i then 1 else 0) := by
    intro i
    have := weight_update h.unique (wakes i) (f := Waiter.wake) hw rfl
    simp [wakes, Waiter.wake, hno] at this
    exact this
  refine ⟨h.unique.update (fun _ => rfl), h.few, fun i hst => ?_⟩
  by_cases hi : i = w.signal_id
  · subst hi
    simp only [View.take, set_self, hwt] at hst ⊢
    obtain ⟨hlt, hle⟩ := h.held _ hst
    have := take_done hc hlt
    simp only [if_true]
    omega
  · simp only [View.take, set_ne hi, hwt, if_neg (Ne.symm hi)] at hst ⊢
    exact h.held i hst

theorem Accounted.reread {v : View} (h : Accounted v) {w : Waiter} (hw : w ∈ v.waiters)
    (hyes : w.woken = true) : Accounted (v.reread w) := by
  have hwt : ∀ i, weight (wakes i) (remove Waiter.tid v.waiters w.tid) +
      (if w.signal_id = i then 1 else 0) = weight (wakes i) v.waiters := by
    intro i
    have := weight_remove h.unique (wakes i) hw rfl
    simp [wakes, hyes] at this
    exact this
  have hself := hwt w.signal_id
  simp only [if_true] at hself
  unfold View.reread
  rcases reread_cases (v.slot w.signal_id) with ⟨hst, he⟩ | ⟨hst, he⟩
  · -- the wait returns 0: the signal that it holds becomes the signal of its result
    obtain ⟨hlt, hle⟩ := h.held _ hst
    rw [he]
    refine ⟨h.unique.remove, fun i => ?_, fun i hsti => ?_⟩
    · by_cases hi : i = w.signal_id
      · subst hi
        simp only [View.finish, if_true, set_self]
        omega
      · simp only [View.finish, if_true, set_ne hi]
        exact h.few i
    · by_cases hi : i = w.signal_id
      · subst hi
        simp only [View.finish, if_true, set_self]
        omega
      · have := hwt i
        simp only [View.finish, if_true, set_ne hi, if_neg (Ne.symm hi)] at hsti this ⊢
        obtain ⟨h1, h2⟩ := h.held i hsti
        omega
  · rw [he]
    dsimp only
    rw [set_eq_self]
    refine ⟨h.unique.remove, h.few, fun i hsti => ?_⟩
    obtain ⟨h1, h2⟩ := h.held i hsti
    have := hwt i
    simp only [View.finish, reduceCtorEq, if_false]
    omega

theorem Accounted.close {v : View} (h : Accounted v) (i : Nat) {st : State}
    (hst : st = .CANCELED ∨ st = .UNUSED) : Accounted (v.close i st) := by
  have hkeep := keeps_place_of (i := i) (g := Waiter.hitBy) (fun _ => ⟨rfl, rfl, rfl⟩)
  refine ⟨unique_map h.unique hkeep, h.few, fun j hj => ?_⟩
  unfold View.close View.setWaiters at hj ⊢
  dsimp only at hj ⊢
  rw [weight_wakes_map j _ hkeep]
  by_cases hji : j = i
  · subst hji
    rw [set_self] at hj
    rcases hst with rfl | rfl <;> simp at hj
  · rw [set_ne hji] at hj ⊢
    exact h.held j hj

theorem Accounted.receive {v : View} (h : Accounted v) (i : Nat) (hc : Countable v i)
    (hst : (v.slot i).state = .PENDING ∨ (v.slot i).state = .SIGNALED) :
    Accounted (v.receive i) := by
  refine ⟨h.unique, fun j => ?_, fun j hj => ?_⟩
  · unfold View.receive
    dsimp only
    have := h.few j
    by_cases hji : j = i
    · subst hji
      rw [set_self]
      omega
    · rw [set_ne hji]
      exact this
  · unfold View.receive at hj ⊢
    dsimp only at hj ⊢
    by_cases hji : j = i
    · subst hji
      obtain ⟨_, hle⟩ := h.held j hst
      rw [set_self, set_self]
      dsimp only
      rw [complete_done hc]
      exact ⟨hc, by omega⟩
    · rw [set_ne hji] at hj
      rw [set_ne hji, set_ne hji]
      exact h.held j hj

theorem Accounted.effect {v v' : View} {op : Op} (h : Accounted v) (hc : Consumes v op)
    (he : Effect v op v') : Accounted v' := by
  cases he with
  | same => exact h
  | create hst => exact h.create _ (hc hst)
  | block hnew hst =>
    refine ⟨h.unique.cons (lookup_eq_none.mp hnew), h.few, fun i hi => ?_⟩
    have := h.held i hi
    simpa [wakes, newWaiter] using this
  | returns hnew herr =>
    -- a wait that returns at once returns an error here
    rename_i err
    cases err with
    | none => exact absurd (herr rfl) hc
    | some e =>
      refine ⟨h.unique.remove, h.few, fun i hi => ?_⟩
      have := h.held i hi
      simp only [View.finish, newWaiter, remove_of_new hnew]
      exact this
  | take hw hno hcomp => exact h.take (mem_of_lookup hw) hno hcomp
  | give_up e hw hno => exact h.finish e (mem_of_lookup hw) hno
  | reread hw hyes => exact h.reread (mem_of_lookup hw) hyes
  | cancel hst => exact h.close _ (Or.inl rfl)
  | destroy hst => exact h.close _ (Or.inr rfl)

theorem accounted_new (v : Nat) : Accounted ((hfastrpc_file_alloc v).view) where
  unique := List.nodup_nil
  few := fun _ => Nat.le_refl 0
  held := by
    intro i h
    rcases h with h | h <;> cases h

/-- In every run in which no wait begins on a signaled signal, no signal is created before the
woken waiters of the last one have looked, and the wake-ups can be counted: the waits for a
signal that returned 0 since it was created are no more than the times it was received. -/
theorem a_received_signal_satisfies_one_wait {s : Apps}
    (hr : ReachableUnder step (EachStep Consumes Countable) init s) :
    ∀ f ∈ s.drivers, ∀ i, f.zeros i ≤ f.received i := by
  have h : OfAll Accounted s := by
    refine hr.inv (OfAll Accounted) ?_ (fun f hf => absurd hf List.not_mem_nil)
    exact step_keeps (accounted_new) (fun hv hc he => hv.effect hc he)
      (fun hv hc hst => hv.receive _ hc hst)
  intro f hf i
  exact (h f hf).few i

/-- A waiter that blocks before its signal comes. -/
theorem one_wait_for_one_signal :
    ∃ s, run step init
        [.open_file 1, .bind 1 7 3, .ioctl 1 (.create 5 true), .ioctl 1 (.wait 20 5 0xffffffff),
          .remote 0x700000005 3, .ioctl 1 (.take 20), .ioctl 1 (.reread 20)] = some s ∧
      (∃ f ∈ s.drivers, f.zeros 5 = 1) ∧ ∀ f ∈ s.drivers, ∀ i, f.zeros i ≤ f.received i := by
  refine ⟨_, rfl, ⟨_, List.mem_cons_self, rfl⟩, ?_⟩
  apply a_received_signal_satisfies_one_wait
  refine ⟨[.open_file 1, .bind 1 7 3, .ioctl 1 (.create 5 true),
    .ioctl 1 (.wait 20 5 0xffffffff), .remote 0x700000005 3, .ioctl 1 (.take 20),
    .ioctl 1 (.reread 20)], ?_, rfl⟩
  refine .cons trivial rfl ?_
  refine .cons trivial rfl ?_
  refine ⟨fun f hf _ w hw => ?_, fun t ht => ?_⟩
  · cases hf
    cases hw
  cases ht
  refine ⟨fun f hf => ?_, fun t ht => ?_⟩
  · cases hf
    exact (by decide : State.PENDING ≠ State.SIGNALED)
  cases ht
  refine ⟨fun f hf => ?_, fun t ht => ?_⟩
  · cases hf
    unfold Countable
    decide
  exact ⟨fun f _ => trivial, fun _ _ => ⟨fun f _ => trivial, fun _ _ => trivial⟩⟩

/-- Two waits that come after the signal both find it signaled, and both return 0. -/
theorem one_signal_satisfies_two_waits :
    ∃ s f, run step init
        [.open_file 1, .bind 1 7 3, .ioctl 1 (.create 5 true), .remote 0x700000005 3,
          .ioctl 1 (.wait 20 5 0xffffffff), .ioctl 1 (.wait 20 5 0xffffffff)] = some s ∧
      s.file 1 = some f ∧ f.received 5 = 1 ∧ f.zeros 5 = 2 :=
  ⟨_, _, rfl, rfl, rfl, rfl⟩

end virtual_fastrpc.signal_counts
