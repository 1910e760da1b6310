-- Cancelled and destroyed signals: what a waiter learns when its signal is
-- taken away from it, and how long a cancelled signal stays cancelled.
import PlatformKernel.DspSignals

namespace virtual_fastrpc.signal_cancels

open keyed completion step_runs virtual_fastrpc.dsp_signals

/-! ## A cancelled wait is told -/

/-- A signal is not created while a wait for the last signal with its id has not returned: the wait
may sleep in the completion, which the create closes again, or it may have left the completion and
not looked at the state. -/
def CreatesAfterWaits (v : View) : Op → Prop
  | .create i _ => (v.slot i).state = .UNUSED → ∀ w ∈ v.waiters, w.signal_id ≠ i
  | _ => True

/-- What every wait learns of a cancel or a destroy of its signal. -/
structure Told (v : View) : Prop where
  unique : Unique Waiter.tid v.waiters
  hit : ∀ w ∈ v.waiters, w.hit = true →
    ¬ ((v.slot w.signal_id).state = .PENDING ∨ (v.slot w.signal_id).state = .SIGNALED)
  returns : ∀ r ∈ v.returns, r.waiter.hit = true → r.err ≠ none

theorem Told.create {v : View} (h : Told v) (i : Nat) (hall : ∀ w ∈ v.waiters, w.signal_id ≠ i) :
    Told (v.create i) := by
  refine ⟨h.unique, fun w hw hhit => ?_, h.returns⟩
  simp only [View.create, set_ne (hall w hw)]
  exact h.hit w hw hhit

/-- The waits of a session after one of them has returned. -/
theorem Told.finish {v : View} (h : Told v) {w : Waiter} {err : Option Errno}
    (hhit : w.hit = true → err ≠ none) : Told (v.finish w err) := by
  refine ⟨h.unique.remove, fun x hx => h.hit x (mem_remove.mp hx).1, fun r hr => ?_⟩
  rcases List.mem_cons.mp hr with rfl | hr
  · exact hhit
  · exact h.returns r hr

theorem Told.take {v : View} (h : Told v) {w : Waiter} {c : Completion} : Told (v.take w c) := by
  -- taking a wake-up does not change the state
  have hstate : ∀ i, ((v.take w c).slot i).state = (v.slot i).state := by
    intro i
    by_cases hi : i = w.signal_id
    · subst hi
      simp [View.take, set_self]
    · simp [View.take, set_ne hi]
  refine ⟨h.unique.update (fun _ => rfl), fun x hx hhit => ?_, h.returns⟩
  rw [hstate]
  rcases mem_update.mp hx with ⟨hx, _⟩ | ⟨y, hy, _, rfl⟩
  · exact h.hit x hx hhit
  · exact h.hit y hy hhit

theorem Told.reread {v : View} (h : Told v) {w : Waiter} (hw : w ∈ v.waiters) :
    Told (v.reread w) := by
  unfold View.reread
  rcases reread_cases (v.slot w.signal_id) with ⟨hst, he⟩ | ⟨hst, he⟩
  · rw [he]
    dsimp only
    -- the wait returns 0, so its signal was open, and nobody who waits for it was hit
    have hset : Told { v with
        slot := set v.slot w.signal_id ⟨(v.slot w.signal_id).comp, .PENDING⟩ } := by
      refine ⟨h.unique, fun x hx hhit => ?_, h.returns⟩
      have hno := h.hit x hx hhit
      have hne : x.signal_id ≠ w.signal_id := by
        intro hx
        rw [hx] at hno
        exact hno hst
      dsimp only
      rw [set_ne hne]
      exact hno
    apply hset.finish
    intro hhit
    exact absurd hst (h.hit w hw hhit)
  · rw [he]
    dsimp only
    rw [set_eq_self]
    exact h.finish (fun _ hn => by cases hn)

theorem Told.close {v : View} (h : Told v) (i : Nat) {st : State}
    (hst : st = .CANCELED ∨ st = .UNUSED) : Told (v.close i st) := by
  have hkeep := keeps_place_of (i := i) (g := Waiter.hitBy) (fun _ => ⟨rfl, rfl, rfl⟩)
  refine ⟨unique_map h.unique hkeep, fun x hx hhit => ?_, h.returns⟩
  obtain ⟨w, hw, rfl⟩ := List.mem_map.mp hx
  by_cases hwi : w.signal_id = i
  · rw [if_pos hwi, show w.hitBy.signal_id = i from hwi]
    simp only [View.close, View.setWaiters, set_self]
    rcases hst with rfl | rfl <;> simp
  · rw [if_neg hwi] at hhit ⊢
    simp only [View.close, View.setWaiters, set_ne hwi]
    exact h.hit w hw hhit

theorem Told.receive {v : View} (h : Told v) (i : Nat)
    (hst : (v.slot i).state = .PENDING ∨ (v.slot i).state = .SIGNALED) : Told (v.receive i) := by
  refine ⟨h.unique, fun w hw hhit => ?_, h.returns⟩
  have hno := h.hit w hw hhit
  have hwi : w.signal_id ≠ i := by
    rintro rfl
    exact hno hst
  simp only [View.receive, set_ne hwi]
  exact hno

theorem Told.effect {v v' : View} {op : Op} (h : Told v) (hc : CreatesAfterWaits v op)
    (he : Effect v op v') : Told v' := by
  cases he with
  | same => exact h
  | create hst => exact h.create _ (hc hst)
  | block hnew hst =>
    refine ⟨h.unique.cons (lookup_eq_none.mp hnew), fun w hw hhit => ?_, h.returns⟩
    rcases List.mem_cons.mp hw with rfl | hw
    · cases hhit
    · exact h.hit w hw hhit
  | returns hnew herr => exact h.finish (fun hhit => by cases hhit)
  | take hw hno hcomp => exact h.take
  | give_up e hw hno => exact h.finish (fun _ hn => by cases hn)
  | reread hw hyes => exact h.reread (mem_of_lookup hw)
  | cancel hst => exact h.close _ (Or.inl rfl)
  | destroy hst => exact h.close _ (Or.inr rfl)

theorem told_new (v : Nat) : Told ((hfastrpc_file_alloc v).view) where
  unique := List.nodup_nil
  hit := fun _ hw => absurd hw List.not_mem_nil
  returns := fun _ hr => absurd hr List.not_mem_nil

/-- A cancelled signal stays cancelled until it is destroyed. -/
theorem effect_stays_cancelled {v v' : View} {op : Op} (he : Effect v op v') {i : Nat}
    (h : (v.slot i).state = .CANCELED) (hop : op ≠ .destroy i) :
    (v'.slot i).state = .CANCELED := by
  cases he with
  | same => exact h
  | @create j _ hst =>
    have hij : i ≠ j := by
      rintro rfl
      rw [hst] at h
      cases h
    simpa [View.create, set_ne hij] using h
  | block hnew hst => exact h
  | returns hnew herr => exact h
  | @take _ w c hw hno hcomp =>
    by_cases hi : i = w.signal_id
    · subst hi
      simpa [View.take, set_self] using h
    · simpa [View.take, set_ne hi] using h
  | give_up e hw hno => exact h
  | @reread _ w hw hyes =>
    unfold View.reread
    by_cases hi : i = w.signal_id
    · subst hi
      rcases reread_cases (v.slot w.signal_id) with ⟨hst, _⟩ | ⟨_, he⟩
      · rw [h] at hst
        simp at hst
      · rw [he]
        simpa [View.finish, set_self] using h
    · simpa [View.finish, set_ne hi] using h
  | @cancel j hst =>
    by_cases hi : i = j
    · subst hi
      simp [View.close, View.setWaiters, set_self]
    · simpa [View.close, View.setWaiters, set_ne hi] using h
  | @destroy j hst =>
    have hij : i ≠ j := by
      rintro rfl
      exact hop rfl
    simpa [View.close, View.setWaiters, set_ne hij] using h

section sessions

variable {f f' : File}

theorem op_ptr {op : Op} (h : f.op op = some f') : f'.ptr = f.ptr := by
  cases op with
  | create i alloc_ok =>
    cases h
    unfold hfastrpc_dspsignal_create
    dsimp only
    split
    · rfl
    · split
      · rfl
      · split <;> rfl
  | wait tid i t =>
    simp only [File.op] at h
    split at h
    · cases h
    · split at h <;> cases h <;> rfl
  | take tid =>
    obtain ⟨w, s, _, _, _, h⟩ := onWaiter_some h
    obtain ⟨c, _, rfl⟩ := Option.map_eq_some_iff.mp h
    rfl
  | timeout tid =>
    obtain ⟨w, s, _, _, _, h⟩ := onWaiter_some h
    split at h <;> cases h
    rfl
  | interrupt tid =>
    obtain ⟨w, s, _, _, _, h⟩ := onWaiter_some h
    split at h <;> cases h
    rfl
  | reread tid =>
    obtain ⟨w, s, _, _, _, h⟩ := onWaiter_some h
    cases h
    rfl
  | cancel_wait i =>
    cases h
    unfold hfastrpc_dspsignal_cancel_wait
    split
    · rfl
    · split
      · rfl
      · split
        · rfl
        · split <;> rfl
  | destroy i =>
    cases h
    unfold hfastrpc_dspsignal_destroy
    split
    · rfl
    · split
      · rfl
      · split <;> rfl

theorem receive_ptr (f : File) (i : Nat) : (receive f i).ptr = f.ptr := by
  unfold receive
  split
  · rfl
  · split <;> rfl

/-- Session `v` is there, and its signal `i` is cancelled. -/
def Cancelled (v i : Nat) (s : Apps) : Prop :=
  Unique File.ptr s.drivers ∧ ∃ f, s.file v = some f ∧ ((f.view).slot i).state = .CANCELED

/-- A change of a session in which its cancelled signals stay cancelled. -/
theorem Cancelled.setFile {v i w : Nat} {s : Apps} (h : Cancelled v i s)
    (hf : s.file w = some f) (hptr : f'.ptr = f.ptr)
    (hkeep : w = v → ((f.view).slot i).state = .CANCELED →
      ((f'.view).slot i).state = .CANCELED) : Cancelled v i (s.setFile w f') := by
  obtain ⟨hu, g, hg, hst⟩ := h
  have hw : f'.ptr = w := hptr.trans (key_of_lookup hf)
  refine ⟨hu.update_const hw, ?_⟩
  by_cases hvw : v = w
  · subst hvw
    rw [hf] at hg
    cases hg
    exact ⟨f', lookup_update_const_self hw hf, hkeep rfl hst⟩
  · exact ⟨g, (lookup_update_const_ne hw hvw).trans hg, hst⟩

theorem step_stays_cancelled {v i : Nat} (s : Apps) (a : Act) (t : Apps)
    (h : Cancelled v i s) (ha : a ≠ .ioctl v (.destroy i) ∧ a ≠ .release v)
    (ht : step s a = some t) : Cancelled v i t := by
  obtain ⟨hu, f, hf, hst⟩ := id h
  cases a with
  | open_file w =>
    simp only [step] at ht
    split at ht
    · cases ht
    · rename_i hnew
      cases ht
      have hnone : s.file w = none := by simpa using hnew
      have hwv : w ≠ v := by
        rintro rfl
        rw [hnone] at hf
        cases hf
      exact ⟨hu.cons (lookup_eq_none.mp hnone), f, (lookup_cons_ne hwv).trans hf, hst⟩
  | bind w upid domain =>
    obtain ⟨g, hg, rfl⟩ := Option.map_eq_some_iff.mp ht
    exact h.setFile hg rfl (fun _ hc => hc)
  | release w =>
    obtain ⟨g, hg, ht⟩ := Option.bind_eq_some_iff.mp ht
    split at ht
    · cases ht
      have hwv : v ≠ w := by
        rintro rfl
        exact ha.2 rfl
      exact ⟨hu.remove, f, (lookup_remove_ne hwv).trans hf, hst⟩
    · cases ht
  | ioctl w op =>
    obtain ⟨g, hg, ht⟩ := Option.bind_eq_some_iff.mp ht
    obtain ⟨g', hg', rfl⟩ := Option.map_eq_some_iff.mp ht
    refine h.setFile hg (op_ptr hg') (fun hwv hc => ?_)
    subst hwv
    refine effect_stays_cancelled (op_effect hg') hc ?_
    rintro rfl
    exact ha.1 rfl
  | remote msg domain =>
    cases ht
    unfold handle_remote_signal
    split
    · exact h
    · split
      · exact h
      · rename_i g hg
        have hmem := List.mem_of_find?_eq_some hg
        refine h.setFile (lookup_of_mem hu hmem) (receive_ptr g _) (fun _ hc => ?_)
        rcases receive_effect g (signalOf msg) with he | ⟨hopen, he⟩
        · rw [he]
          exact hc
        · have hne : i ≠ signalOf msg := by
            rintro rfl
            rw [hc] at hopen
            simp at hopen
          rw [he]
          simpa [View.receive, View.setWaiters, set_ne hne] using hc

theorem reachable_unique {s : Apps} (hr : Reachable step init s) :
    Unique File.ptr s.drivers := by
  have hinit : Unique File.ptr init.drivers := List.nodup_nil
  refine hr.inv (fun s => keyed.Unique File.ptr (Apps.drivers s)) ?_ hinit
  intro s a t hu ht
  cases a with
  | open_file w =>
    simp only [step] at ht
    split at ht
    · cases ht
    · rename_i hnew
      cases ht
      have hnone : s.file w = none := by simpa using hnew
      exact hu.cons (lookup_eq_none.mp hnone)
  | bind w upid domain =>
    obtain ⟨g, hg, rfl⟩ := Option.map_eq_some_iff.mp ht
    have hgw : g.ptr = w := key_of_lookup hg
    exact hu.update_const hgw
  | release w =>
    obtain ⟨g, hg, ht⟩ := Option.bind_eq_some_iff.mp ht
    split at ht
    · cases ht
      exact hu.remove
    · cases ht
  | ioctl w op =>
    obtain ⟨g, hg, ht⟩ := Option.bind_eq_some_iff.mp ht
    obtain ⟨g', hg', rfl⟩ := Option.map_eq_some_iff.mp ht
    have hgw : g.ptr = w := key_of_lookup hg
    exact hu.update_const ((op_ptr hg').trans hgw)
  | remote msg domain =>
    cases ht
    unfold handle_remote_signal
    split
    · exact hu
    · split
      · exact hu
      · exact hu.update_const (receive_ptr _ _)

/-- After a cancel that returns 0, the signal is cancelled. -/
theorem cancel_wait_cancels {i : Nat} (h : (hfastrpc_dspsignal_cancel_wait f i).2 = none) :
    i < DSPSIGNAL_NUM_SIGNALS ∧
      (((hfastrpc_dspsignal_cancel_wait f i).1.view).slot i).state = .CANCELED := by
  unfold hfastrpc_dspsignal_cancel_wait at h ⊢
  split at h
  · cases h
  · rename_i hi
    refine ⟨by omega, ?_⟩
    rw [if_neg hi]
    split at h
    · cases h
    · rename_i s hs
      split at h
      · cases h
      · rename_i hst
        rw [if_neg hst]
        split
        · show (((f.setSignal i ⟨complete_all s.comp, .CANCELED⟩).view).slot i).state = _
          rw [slot_setSignal hs, set_self]
        · rename_i hcan
          rw [slot_of_signal hs]
          simpa using hcan

/-- A wait on a cancelled signal returns -EINTR at once. -/
theorem wait_check_of_cancelled {i : Nat} (hi : i < DSPSIGNAL_NUM_SIGNALS)
    (h : ((f.view).slot i).state = .CANCELED) :
    hfastrpc_dspsignal_wait_check f i = .returns (some .EINTR) := by
  unfold hfastrpc_dspsignal_wait_check
  rw [if_neg (by omega)]
  split
  · rename_i hnone
    rw [slot_of_none hnone] at h
    cases h
  · rename_i s hs
    rw [slot_of_signal hs] at h
    simp [h]

end sessions

/-- In every run in which no signal is created before the waits for the last one with its id have
returned: a wait whose signal was cancelled or destroyed while it waited returns an error. And from
a cancel that returns 0 on, every wait returns -EINTR until the signal is destroyed. -/
theorem a_cancelled_wait_is_told {s : Apps}
    (hr : ReachableUnder step (EachStep CreatesAfterWaits fun _ _ => True) init s) :
    (∀ f ∈ s.drivers, ∀ r ∈ f.returns, r.waiter.hit = true → r.err ≠ none) ∧
    ∀ v i f as t g, s.file v = some f → (hfastrpc_dspsignal_cancel_wait f i).2 = none →
      run step s (.ioctl v (.cancel_wait i) :: as) = some t →
      .ioctl v (.destroy i) ∉ as → .release v ∉ as → t.file v = some g →
      hfastrpc_dspsignal_wait_check g i = .returns (some .EINTR) := by
  constructor
  · have h : OfAll Told s := by
      refine hr.inv (OfAll Told) ?_ (fun f hf => absurd hf List.not_mem_nil)
      exact step_keeps told_new (fun hv hc he => hv.effect hc he)
        (fun hv _ hst => hv.receive _ hst)
    intro f hf
    exact (h f hf).returns
  · intro v i f as t g hf hcancel hrun hnd hnr hg
    obtain ⟨pre, _, hpre⟩ := hr
    have hu : Unique File.ptr s.drivers := reachable_unique ⟨pre, hpre⟩
    obtain ⟨hi, hst⟩ := cancel_wait_cancels hcancel
    obtain ⟨u, hstep, hrun⟩ := Option.bind_eq_some_iff.mp hrun
    obtain ⟨f₀, hf₀, hop⟩ := Option.bind_eq_some_iff.mp hstep
    rw [hf] at hf₀
    cases hf₀
    have hfv : f.ptr = v := key_of_lookup hf
    have hop' : f.op (.cancel_wait i) = some (hfastrpc_dspsignal_cancel_wait f i).1 := rfl
    have hw := (op_ptr hop').trans hfv
    have hfirst : Cancelled v i u := by
      cases hop
      exact ⟨hu.update_const hw, _, lookup_update_const_self hw hf, hst⟩
    have hlast : Cancelled v i t := by
      refine run_inv_of_meets (Cancelled v i)
        (C := fun _ a => a ≠ .ioctl v (.destroy i) ∧ a ≠ .release v) step_stays_cancelled hfirst
        (meets_of_forall (fun a ha _ => ⟨?_, ?_⟩) u) hrun
      · rintro rfl
        exact hnd ha
      · rintro rfl
        exact hnr ha
    obtain ⟨_, g', hg', hst'⟩ := hlast
    rw [hg] at hg'
    cases hg'
    exact wait_check_of_cancelled hi hst'

/-- A waiter whose signal is destroyed is told so, and then the id is used again. -/
theorem a_destroyed_wait_returns_an_error :
    ∃ s f, run step init
        [.open_file 1, .ioctl 1 (.create 5 true), .ioctl 1 (.wait 20 5 0xffffffff),
          .ioctl 1 (.destroy 5), .ioctl 1 (.take 20), .ioctl 1 (.reread 20),
          .ioctl 1 (.create 5 true)] = some s ∧
      s.file 1 = some f ∧ f.returns = [⟨⟨20, 5, 0xffffffff, true, true⟩, some .EINTR⟩] ∧
      ∀ f ∈ s.drivers, ∀ r ∈ f.returns, r.waiter.hit = true → r.err ≠ none := by
  refine ⟨_, _, rfl, rfl, rfl, ?_⟩
  refine (a_cancelled_wait_is_told ?_).1
  refine ⟨[.open_file 1, .ioctl 1 (.create 5 true), .ioctl 1 (.wait 20 5 0xffffffff),
    .ioctl 1 (.destroy 5), .ioctl 1 (.take 20), .ioctl 1 (.reread 20),
    .ioctl 1 (.create 5 true)], ?_, rfl⟩
  refine .cons trivial rfl (.cons ?_ rfl (.cons (fun _ _ => trivial) rfl
    (.cons (fun _ _ => trivial) rfl (.cons (fun _ _ => trivial) rfl
    (.cons (fun _ _ => trivial) rfl (.cons ?_ rfl trivial))))))
  · intro f hf _ w hw
    cases hf
    cases hw
  · intro f hf _ w hw
    cases hf
    cases hw

/-- The signal is destroyed and created again before the woken waiter looks at its state: the
wait returns 0, and no signal was received. -/
theorem a_destroyed_wait_may_return_zero :
    ∃ s f, run step init
        [.open_file 1, .ioctl 1 (.create 5 true), .ioctl 1 (.wait 20 5 0xffffffff),
          .ioctl 1 (.destroy 5), .ioctl 1 (.take 20), .ioctl 1 (.create 5 true),
          .ioctl 1 (.reread 20)] = some s ∧
      s.file 1 = some f ∧ f.returns = [⟨⟨20, 5, 0xffffffff, true, true⟩, none⟩] ∧
      f.received 5 = 0 :=
  ⟨_, _, rfl, rfl, rfl, rfl⟩

/-- When the id is created again before the waiter has run at all, it sleeps on: the first signal
with the id wakes it, and it returns 0 for a signal that was destroyed. -/
example : ∃ s f, run step init
      [.open_file 1, .bind 1 7 3, .ioctl 1 (.create 5 true), .ioctl 1 (.wait 20 5 0xffffffff),
        .ioctl 1 (.destroy 5), .ioctl 1 (.create 5 true), .remote 0x700000005 3,
        .ioctl 1 (.take 20), .ioctl 1 (.reread 20)] = some s ∧
    s.file 1 = some f ∧ f.returns = [⟨⟨20, 5, 0xffffffff, true, true⟩, none⟩] :=
  ⟨_, _, rfl, rfl, rfl⟩

end virtual_fastrpc.signal_cancels
