-- No call of the hybrid driver is left behind by a restart of its subsystem: what
-- holds of every call and its thread in every run, and so of those that passed
-- the check of ssrcount before a shutdown that the notifier has told them of.
import PlatformKernel.RestartWaits

namespace virtual_fastrpc.restart_waits

open virtual_fastrpc.context_table keyed step_runs

/-! ## The laws of a call -/

/-- From here the thread may come to hfastrpc_wait_for_response without a look at
`is_work_done`. -/
def mayBlock : Pc → Bool
  | .polling_response | .polling_mode | .timed_out | .woken | .again | .out => false
  | _ => true

/-- No thread is in the waiting loop or before it. -/
def atRest : Pc → Bool
  | .alloc | .parked | .out => true
  | _ => false

/-- The check of ssrcount is still to come. -/
def unchecked : Pc → Bool
  | .alloc | .ready => true
  | _ => false

def leaving : Phase → Bool
  | .dying | .unlinked | .delisted => true
  | _ => false

/-- How many shutdowns had begun when the notifier last came by the session. -/
def Domain.reached (s : Domain) (v : Nat) : Nat :=
  match s.notifier with
  | .walking rest => if v ∈ rest then s.notified else s.shutdowns
  | _ => s.notified

/-- The node of the context is on the list that it says. -/
def Listed (s : Chan) (p : Nat) (c : InvokeCtx) : Prop :=
  (c.hn = .pending → p ∈ (s.clst c.vfl).pending) ∧
    (c.hn = .interrupted → p ∈ (s.clst c.vfl).interrupted)

/-- What holds of a context and its thread. -/
structure CallOk (s : Domain) (p : Nat) (c : InvokeCtx) (w : Waiter) : Prop where
  sync : c.isasyncjob = false
  bound : s.bound c.vfl = true
  made : c.phase = .built ∨ c.phase = .tabled → c.hn = .fake
  fake : c.hn = .fake → w.pc = .alloc
  unchecked : unchecked w.pc = true → w.passed = none
  unhashed : c.hn = .unhashed → atRest w.pc = true
  leaving : leaving c.phase = true → atRest w.pc = true
  /-- A call that is done finds a wake-up wherever it may still come to wait. -/
  waits : c.is_work_done = true → mayBlock w.pc = true → 0 < c.work
  passed : ∀ n, w.passed = some n → n ≤ s.shutdowns
  done : ∀ n, w.passed = some n → n < s.reached c.vfl → c.hn ≠ .unhashed → c.is_work_done = true

structure Inv (s : Domain) : Prop where
  listed : ∀ p c, s.chan.ctx p = some c → Listed s.chan p c
  drivers : ∀ v, s.bound v = true → v ∈ s.drivers
  notified : s.notified ≤ s.shutdowns
  calls : ∀ p c, s.chan.ctx p = some c → CallOk s p c (s.waiter p)

theorem inv_init : Inv init where
  listed := by intro p c h; cases h
  drivers := by intro v h; cases h
  notified := Nat.le_refl 0
  calls := by intro p c h; cases h

/-! ## The lists -/

def AllListed (s : Chan) : Prop := ∀ p c, s.ctx p = some c → Listed s p c

theorem AllListed.setCtx {s : Chan} (h : AllListed s) (p : Nat) {f : InvokeCtx → InvokeCtx}
    (hptr : ∀ x, (f x).ptr = x.ptr) (hvfl : ∀ x, (f x).vfl = x.vfl)
    (hhn : ∀ x, (f x).hn = x.hn) : AllListed (s.setCtx p f) := by
  intro q d hd
  rcases setCtx_cases hptr hd with ⟨_, hq⟩ | ⟨rfl, c, hc, rfl⟩
  · exact h q d hq
  · have hl := h q c hc
    unfold Listed at hl ⊢
    rw [hhn, hvfl]
    exact hl

/-- A context moves to the list that its new node says, and the lists keep the others. -/
theorem AllListed.relink {s : Chan} (h : AllListed s) {c : InvokeCtx} {f : InvokeCtx → InvokeCtx}
    {g : CtxLst → CtxLst} (hc : s.ctx c.ptr = some c) (hptr : ∀ x, (f x).ptr = x.ptr)
    (hvfl : ∀ x, (f x).vfl = x.vfl)
    (hg : ∀ l q, q ≠ c.ptr → (q ∈ l.pending → q ∈ (g l).pending) ∧
      (q ∈ l.interrupted → q ∈ (g l).interrupted))
    (hself : ∀ l, ((f c).hn = .pending → c.ptr ∈ (g l).pending) ∧
      ((f c).hn = .interrupted → c.ptr ∈ (g l).interrupted)) :
    AllListed ((s.setCtx c.ptr f).setClst c.vfl g) := by
  intro q d hd
  rcases setCtx_cases hptr hd with ⟨hq, hd⟩ | ⟨rfl, e, he, rfl⟩
  · have hl := h q d hd
    unfold Listed at hl ⊢
    by_cases hv : d.vfl = c.vfl
    · rw [hv] at hl ⊢
      simp only [Chan.setClst, if_true]
      exact ⟨fun hn => (hg _ q hq).1 (hl.1 hn), fun hn => (hg _ q hq).2 (hl.2 hn)⟩
    · simp only [Chan.setClst, hv, if_false]
      exact hl
  · rw [hc] at he
    cases he
    unfold Listed
    rw [hvfl]
    simp only [Chan.setClst, if_true]
    exact hself _

/-- A context that leaves both lists leaves the others there. -/
theorem mem_hlist_del {l : CtxLst} {p q : Nat} (hq : q ≠ p) :
    (q ∈ (hlist_del p l).pending ↔ q ∈ l.pending) ∧
      (q ∈ (hlist_del p l).interrupted ↔ q ∈ l.interrupted) :=
  ⟨List.mem_erase_of_ne hq, List.mem_erase_of_ne hq⟩

theorem listed_chan_step {sh : AdsprpcShared} {s t : Chan} {a : context_table.Act}
    (hsync : ∀ p c, s.ctx p = some c → c.isasyncjob = false) (h : AllListed s)
    (ht : context_table.step sh s a = some t) : AllListed t := by
  cases a with
  | alloc_begin p v hd k b =>
    rcases alloc_begin_cases ht with rfl | ⟨_, rfl⟩
    · exact h
    · intro q d hd
      rcases ctx_cons_cases rfl hd with ⟨_, rfl⟩ | hd
      · exact ⟨nofun, nofun⟩
      · exact h q d hd
  | response r =>
    cases ht
    rcases response_cases sh s r with ⟨c, flags, early, _, hc, _, he⟩ | ⟨_, n, he⟩
    · obtain ⟨f, hf, hquiet, _⟩ := notify_user_sync sh s (hsync _ _ hc) r.retval flags early
      rw [he]
      dsimp only
      rw [hf]
      apply h.setCtx
      · intro x; exact (hquiet x).1
      · intro x; exact (hquiet x).2.1
      · intro x; exact (hquiet x).2.2.2.1
    · rw [he]
      exact h
  | alloc_fail p =>
    obtain ⟨c, _, _, rfl⟩ := onCtx_some ht
    exact h.setCtx _ (fun _ => rfl) (fun _ => rfl) (fun _ => rfl)
  | alloc_entry p =>
    obtain ⟨c, _, _, rfl⟩ := onCtx_some ht
    unfold context_alloc_entry
    dsimp only
    split
    · exact h.setCtx (f := .enter _) _ (fun _ => rfl) (fun _ => rfl) (fun _ => rfl)
    · exact h.setCtx (f := .goto .dying) _ (fun _ => rfl) (fun _ => rfl) (fun _ => rfl)
  | alloc_list p =>
    obtain ⟨c, hc, _, rfl⟩ := onCtx_some ht
    apply h.relink hc
    · intro x; rfl
    · intro x; rfl
    · intro l q _
      exact ⟨List.mem_cons_of_mem _, id⟩
    · intro l
      exact ⟨fun _ => List.mem_cons_self, nofun⟩
  | save_interrupted p =>
    obtain ⟨c, hc, _, rfl⟩ := onCtx_some ht
    apply h.relink hc
    · intro x; rfl
    · intro x; rfl
    · intro l q hq
      exact ⟨(mem_hlist_del hq).1.mpr, fun hm => List.mem_cons_of_mem _
        ((mem_hlist_del hq).2.mpr hm)⟩
    · intro l
      exact ⟨nofun, fun _ => List.mem_cons_self⟩
  | restore_interrupted p =>
    obtain ⟨c, hc, _, rfl⟩ := onCtx_some ht
    apply h.relink hc
    · intro x; rfl
    · intro x; rfl
    · intro l q hq
      exact ⟨fun hm => List.mem_cons_of_mem _ ((mem_hlist_del hq).1.mpr hm),
        (mem_hlist_del hq).2.mpr⟩
    · intro l
      exact ⟨fun _ => List.mem_cons_self, nofun⟩
  | dtor p =>
    obtain ⟨c, hc, _, rfl⟩ := onCtx_some ht
    apply h.relink hc
    · intro x; rfl
    · intro x; rfl
    · intro l q hq
      exact ⟨(mem_hlist_del hq).1.mpr, (mem_hlist_del hq).2.mpr⟩
    · intro l
      exact ⟨nofun, nofun⟩
  | free p =>
    obtain ⟨c, _, _, rfl⟩ := onCtx_some ht
    exact h.setCtx _ (fun _ => rfl) (fun _ => rfl) (fun _ => rfl)
  | free_entry p =>
    obtain ⟨c, _, _, rfl⟩ := onCtx_some ht
    have hg := h.setCtx (f := .goto .unlinked) c.ptr (fun _ => rfl) (fun _ => rfl) (fun _ => rfl)
    intro q d hd
    rw [ctx_free_entry] at hd
    unfold Listed
    rw [clst_free_entry]
    exact hg q d hd
  | free_list p =>
    obtain ⟨c, hc, _, rfl⟩ := onCtx_some ht
    unfold context_free_list
    split
    · exact h.setCtx _ (fun _ => rfl) (fun _ => rfl) (fun _ => rfl)
    · apply h.relink hc
      · intro x; rfl
      · intro x; rfl
      · intro l q hq
        exact ⟨(mem_hlist_del hq).1.mpr, (mem_hlist_del hq).2.mpr⟩
      · intro l
        exact ⟨nofun, nofun⟩
  | free_end p =>
    obtain ⟨c, hc, _, rfl⟩ := onCtx_some ht
    intro q d hd
    exact h q d (ctx_free_end hd)

/-! ## What each step keeps -/

/-- The law of a call looks at three things of the domain. -/
theorem CallOk.congr {s t : Domain} {p : Nat} {c : InvokeCtx} {w : Waiter} (h : CallOk s p c w)
    (hb : t.bound c.vfl = s.bound c.vfl) (hs : s.shutdowns ≤ t.shutdowns)
    (hr : t.reached c.vfl = s.reached c.vfl) : CallOk t p c w where
  sync := h.sync
  bound := hb.trans h.bound
  made := h.made
  fake := h.fake
  unchecked := h.unchecked
  unhashed := h.unhashed
  leaving := h.leaving
  waits := h.waits
  passed := fun n hn => Nat.le_trans (h.passed n hn) hs
  done := by rw [hr]; exact h.done

/-- A context that has grown, at the place of its thread that the rest of the law allows. -/
theorem CallOk.grow {s : Domain} {p : Nat} {c d : InvokeCtx} {w v : Waiter} (h : CallOk s p c w)
    (hg : Grown c d) (hpassed : v.passed = w.passed)
    (hblock : mayBlock v.pc = true → mayBlock w.pc = true)
    (hmade : d.phase = .built ∨ d.phase = .tabled → d.hn = .fake)
    (hfake : d.hn = .fake → v.pc = .alloc)
    (hcheck : restart_waits.unchecked v.pc = true → restart_waits.unchecked w.pc = true)
    (hun : d.hn = .unhashed → atRest v.pc = true)
    (hleave : restart_waits.leaving d.phase = true → atRest v.pc = true)
    (hnode : d.hn ≠ .unhashed → c.hn ≠ .unhashed) : CallOk s p d v where
  sync := hg.isasyncjob.trans h.sync
  bound := by rw [hg.vfl]; exact h.bound
  made := hmade
  fake := hfake
  unchecked := by
    rw [hpassed]
    exact fun hv => h.unchecked (hcheck hv)
  unhashed := hun
  leaving := hleave
  waits := by
    intro hd hb
    rcases hg.answered hd with hc | hw
    · exact Nat.lt_of_lt_of_le (h.waits hc (hblock hb)) hg.work
    · exact hw
  passed := by rw [hpassed]; exact h.passed
  done := by
    rw [hpassed, hg.vfl]
    intro n hn hlt hd
    exact hg.done (h.done n hn hlt (hnode hd))

/-- A context that keeps its node, with its thread where it was. -/
theorem CallOk.sameNode {s : Domain} {p : Nat} {c d : InvokeCtx} {w : Waiter} (h : CallOk s p c w)
    (hg : Grown c d) (hn : d.hn = c.hn)
    (hmade : d.phase = .built ∨ d.phase = .tabled → c.hn = .fake)
    (hleave : restart_waits.leaving d.phase = true → atRest w.pc = true) : CallOk s p d w := by
  apply h.grow hg rfl id
  · rw [hn]; exact hmade
  · rw [hn]; exact h.fake
  · exact id
  · rw [hn]; exact h.unhashed
  · exact hleave
  · rw [hn]; exact id

/-- A context that goes to a list, with its thread at another place. -/
theorem CallOk.turn {s : Domain} {p : Nat} {c d : InvokeCtx} {w : Waiter} {pc : Pc}
    (h : CallOk s p c w) (hg : Grown c d) (hblock : mayBlock pc = true → mayBlock w.pc = true)
    (hcheck : restart_waits.unchecked pc = true → restart_waits.unchecked w.pc = true)
    (hph : d.phase = .live) (hlisted : d.hn = .pending ∨ d.hn = .interrupted)
    (hnode : c.hn ≠ .unhashed) : CallOk s p d (w.goto pc) := by
  apply h.grow (v := w.goto pc) hg rfl hblock
  · rw [hph]; rintro (h | h) <;> cases h
  · rcases hlisted with hn | hn <;> rw [hn] <;> exact nofun
  · exact hcheck
  · rcases hlisted with hn | hn <;> rw [hn] <;> exact nofun
  · rw [hph]; exact nofun
  · exact fun _ => hnode

theorem follow_keeps (s : Domain) (a : context_table.Act) :
    ∃ w, follow s a = { s with waiter := w } := by
  cases a <;> exact ⟨_, rfl⟩

theorem waiter_setWaiter_self (s : Domain) (p : Nat) (w : Waiter) :
    (s.setWaiter p w).waiter p = w := if_pos rfl

theorem waiter_setWaiter_ne (s : Domain) {p q : Nat} (w : Waiter) (h : q ≠ p) :
    (s.setWaiter p w).waiter q = s.waiter q := if_neg h

theorem follow_waiter {s : Domain} {a : context_table.Act} {q : Nat} (h : turned a ≠ some q)
    (hnew : ∀ v h k b, a ≠ .alloc_begin q v h k b) : (follow s a).waiter q = s.waiter q := by
  cases a with
  | alloc_begin p v hd k b =>
    exact waiter_setWaiter_ne s _ (fun he => hnew v hd k b (by rw [he]))
  | alloc_list p => exact waiter_setWaiter_ne s _ (fun he => h (by rw [he]; rfl))
  | save_interrupted p => exact waiter_setWaiter_ne s _ (fun he => h (by rw [he]; rfl))
  | restore_interrupted p => exact waiter_setWaiter_ne s _ (fun he => h (by rw [he]; rfl))
  | _ => rfl

/-- A section of the channel keeps the law of every call that it moves. -/
theorem CallOk.move {s : Domain} {a : context_table.Act} {q : Nat} {c d : InvokeCtx}
    {n n' : Node} {ph ph' : Phase} (h : CallOk s q c (s.waiter q)) (hmay : mayTake s a = true)
    (hnew : ∀ v h k b, a ≠ .alloc_begin q v h k b) (hg : Grown c d) (hm : Move a q n ph n' ph')
    (hn : c.hn = n) (hph : c.phase = ph) (hn' : d.hn = n') (hph' : d.phase = ph') :
    CallOk s q d ((follow s a).waiter q) := by
  cases hm with
  | keep _ _ _ _ hturn =>
    rw [follow_waiter hturn hnew]
    apply h.sameNode hg (hn'.trans hn.symm)
    · rw [hph', ← hph]; exact h.made
    · rw [hph', ← hph]; exact h.leaving
  | alloc_fail =>
    have hfake := h.made (Or.inl hph)
    apply h.sameNode hg (hn'.trans hn.symm) (fun _ => hfake)
    intro _
    exact (congrArg atRest (h.fake hfake)).trans rfl
  | alloc_entry =>
    have hfake := h.made (Or.inl hph)
    apply h.sameNode hg (hn'.trans hn.symm) (fun _ => hfake)
    rw [hph']; exact nofun
  | alloc_full =>
    have hfake := h.made (Or.inl hph)
    apply h.sameNode hg (hn'.trans hn.symm) (fun _ => hfake)
    intro _
    exact (congrArg atRest (h.fake hfake)).trans rfl
  | alloc_list =>
    have hfake := h.made (Or.inr hph)
    simp only [follow, waiter_setWaiter_self]
    apply h.turn hg _ _ hph' (Or.inl hn')
    · rw [hfake]; exact nofun
    · rw [h.fake hfake]
      exact fun _ => rfl
    · rw [h.fake hfake]
      exact fun _ => rfl
  | save =>
    have hpc : (s.waiter q).pc = .signalled := by simpa [mayTake] using hmay
    simp only [follow, waiter_setWaiter_self]
    apply h.turn hg _ _ hph' (Or.inr hn')
    · rw [hn]; exact nofun
    · rw [hpc]
      exact fun _ => rfl
    · exact nofun
  | restore =>
    have hpc : (s.waiter q).pc = .parked := by simpa [mayTake] using hmay
    simp only [follow, waiter_setWaiter_self]
    apply h.turn hg _ _ hph' (Or.inl hn')
    · rw [hn]; exact nofun
    · rw [hpc]
      exact fun _ => rfl
    · exact nofun
  | dtor =>
    have hpc : (s.waiter q).pc = .parked := by simpa [mayTake] using hmay
    apply h.grow hg rfl id
    · rw [hph']; rintro (h | h) <;> cases h
    · rw [hn']; exact nofun
    · exact id
    · intro _
      exact (congrArg atRest hpc).trans rfl
    · intro _
      exact (congrArg atRest hpc).trans rfl
    · intro hu
      exact absurd hn' hu
  | free =>
    have hpc : (s.waiter q).pc = .out := by simpa [mayTake] using hmay
    apply h.sameNode hg (hn'.trans hn.symm)
    · rw [hph']; rintro (h | h) <;> cases h
    · intro _
      exact (congrArg atRest hpc).trans rfl
  | free_entry =>
    apply h.sameNode hg (hn'.trans hn.symm)
    · rw [hph']; rintro (h | h) <;> cases h
    · intro _
      exact h.leaving (by rw [hph]; rfl)
  | free_list =>
    have hrest := h.leaving (by rw [hph]; rfl)
    apply h.grow hg rfl id
    · rw [hph']; rintro (h | h) <;> cases h
    · rw [hn']; exact nofun
    · exact id
    · intro _
      exact hrest
    · intro _
      exact hrest
    · intro hu
      exact absurd hn' hu

theorem inv_ctx {sh : AdsprpcShared} {s : Domain} {t : Chan} {a : context_table.Act} (h : Inv s)
    (hmay : mayTake s a = true) (ht : context_table.step sh s.chan a = some t) :
    Inv { follow s a with chan := t } := by
  have hsync : ∀ p c, s.chan.ctx p = some c → c.isasyncjob = false :=
    fun p c hc => (h.calls p c hc).sync
  obtain ⟨w, hw⟩ := follow_keeps s a
  have hsame : ∀ {p c v}, CallOk s p c v → CallOk { follow s a with chan := t } p c v := by
    intro p c v hok
    rw [hw]
    exact hok.congr rfl (Nat.le_refl _) rfl
  refine ⟨listed_chan_step hsync h.listed ht, by rw [hw]; exact h.drivers,
    by rw [hw]; exact h.notified, ?_⟩
  intro q d hd
  apply hsame
  rcases chan_step_cases hsync ht hd with ⟨v, hh, k, b, rfl, _, rfl⟩ | ⟨c, hc, hg, hm⟩
  · simp only [mayTake, Bool.and_eq_true, Bool.not_eq_true'] at hmay
    simp only [follow, waiter_setWaiter_self]
    exact ⟨hmay.1.2, hmay.1.1, fun _ => rfl, fun _ => rfl, fun _ => rfl, nofun, nofun, nofun,
      nofun, nofun⟩
  · have hnew : ∀ v h k b, a ≠ .alloc_begin q v h k b := by
      rintro v hh k b rfl
      simp only [mayTake, Bool.and_eq_true, Option.isNone_iff_eq_none] at hmay
      rw [hc] at hmay
      exact nomatch hmay.2
    exact (h.calls q c hc).move hmay hnew hg hm rfl rfl rfl rfl

theorem reached_le {s : Domain} (h : s.notified ≤ s.shutdowns) (v : Nat) :
    s.reached v ≤ s.shutdowns := by
  unfold Domain.reached
  split
  · split
    · exact h
    · exact Nat.le_refl _
  · exact h

theorem notified_le_reached {s : Domain} (h : s.notified ≤ s.shutdowns) (v : Nat) :
    s.notified ≤ s.reached v := by
  unfold Domain.reached
  split
  · split
    · exact Nat.le_refl _
    · exact h
  · exact Nat.le_refl _

/-- What a step of a thread does to its context, and where it leaves the thread: the context
keeps its place, a call that was done stays done, and a thread that may come to wait for a
call that is done has a wake-up. -/
structure Turned (s : Domain) (w : Waiter) (c : InvokeCtx) (o : Waiter × InvokeCtx) : Prop where
  ptr : o.2.ptr = c.ptr
  vfl : o.2.vfl = c.vfl
  isasyncjob : o.2.isasyncjob = c.isasyncjob
  hn : o.2.hn = c.hn
  phase : o.2.phase = c.phase
  inside : atRest w.pc = false
  done : c.is_work_done = true → o.2.is_work_done = true
  waits : (c.is_work_done = true → mayBlock w.pc = true → 0 < c.work) →
    o.2.is_work_done = true → mayBlock o.1.pc = true → 0 < o.2.work
  checked : unchecked o.1.pc = false
  passed : o.1.passed = w.passed ∨ w.pc = .ready ∧ o.1.passed = some s.shutdowns

/-- A step that leaves the context as it is. -/
theorem Turned.goto {s : Domain} {w : Waiter} {c : InvokeCtx} {pc : Pc}
    (hin : atRest w.pc = false) (hpc : unchecked pc = false)
    (hblock : mayBlock pc = true → mayBlock w.pc = true ∨ c.is_work_done = false) :
    Turned s w c (w.goto pc, c) where
  ptr := rfl
  vfl := rfl
  isasyncjob := rfl
  hn := rfl
  phase := rfl
  inside := hin
  done := id
  waits := by
    intro hw hd hb
    rcases hblock hb with h | h
    · exact hw hd h
    · rw [h] at hd
      cases hd
  checked := hpc
  passed := Or.inl rfl

/-- A step to a place from where the thread looks at `is_work_done` before it waits again. -/
theorem Turned.look {s : Domain} {w : Waiter} {c d : InvokeCtx} {pc : Pc}
    (hin : atRest w.pc = false) (hpc : mayBlock pc = false) (hptr : d.ptr = c.ptr)
    (hvfl : d.vfl = c.vfl) (hasync : d.isasyncjob = c.isasyncjob) (hhn : d.hn = c.hn)
    (hph : d.phase = c.phase) (hdone : c.is_work_done = true → d.is_work_done = true) :
    Turned s w c (w.goto pc, d) where
  ptr := hptr
  vfl := hvfl
  isasyncjob := hasync
  hn := hhn
  phase := hph
  inside := hin
  done := hdone
  waits := by
    intro _ _ hb
    exact absurd (hpc.symm.trans hb) nofun
  checked := by cases pc <;> first | rfl | cases hpc
  passed := Or.inl rfl

theorem wait_turn_turned {sh : WaitShared} {s : Domain} {w : Waiter} {c : InvokeCtx}
    {o : Waiter × InvokeCtx} (h : wait_turn sh w c = some o) : Turned s w c o := by
  obtain ⟨pc, wakeTime, passed⟩ := w
  unfold wait_turn at h
  cases pc with
  | switch =>
    dsimp only at h
    repeat' split at h
    all_goals
      cases h
      exact .goto rfl rfl (fun _ => Or.inl rfl)
  | trying jj =>
    dsimp only at h
    split at h
    · split at h
      · cases h
        exact .look rfl rfl rfl rfl rfl rfl rfl id
      · cases h
        exact .goto rfl rfl (fun _ => Or.inl rfl)
    · cases h
      exact .goto rfl rfl (fun _ => Or.inl rfl)
  | timed_out =>
    dsimp only at h
    split at h
    · cases h
      exact .goto rfl rfl (fun h => absurd h nofun)
    · rename_i hnd
      cases h
      exact .goto rfl rfl (fun _ => Or.inr (by simpa using hnd))
  | blocked =>
    dsimp only at h
    split at h
    · cases h
      exact .look rfl rfl rfl rfl rfl rfl rfl id
    · cases h
  | woken =>
    dsimp only at h
    split at h
    · cases h
      exact .goto rfl rfl (fun h => absurd h nofun)
    · cases h
      exact .goto rfl rfl (fun h => absurd h nofun)
  | again =>
    dsimp only at h
    split at h
    · cases h
      exact .goto rfl rfl (fun h => absurd h nofun)
    · rename_i hnd
      cases h
      exact .goto rfl rfl (fun _ => Or.inr (by simpa using hnd))
  | _ => cases h

theorem poll_turn_turned {sh : WaitShared} {s : Domain} {w : Waiter} {c : InvokeCtx} {r : Poll}
    {o : Waiter × InvokeCtx} (h : poll_turn sh w c r = some o) : Turned s w c o := by
  obtain ⟨pc, wakeTime, passed⟩ := w
  unfold poll_turn at h
  cases pc with
  | polling_response =>
    cases r with
    | timeout =>
      cases h
      exact .goto rfl rfl (fun h => absurd h nofun)
    | early_wakeup =>
      cases h
      exact .look rfl rfl rfl rfl rfl rfl rfl (fun _ => rfl)
    | response =>
      cases h
      exact .look rfl rfl rfl rfl rfl rfl rfl (fun _ => rfl)
  | polling_mode =>
    cases r with
    | timeout =>
      cases h
      exact .look rfl rfl rfl rfl rfl rfl rfl id
    | early_wakeup =>
      cases h
      exact .goto rfl rfl (fun h => absurd h nofun)
    | response =>
      cases h
      exact .look rfl rfl rfl rfl rfl rfl rfl (fun _ => rfl)
  | _ => cases h

theorem ctx_put_self {s : Domain} {p : Nat} {c : InvokeCtx} {o : Waiter × InvokeCtx}
    (hc : s.chan.ctx p = some c) (hptr : o.2.ptr = c.ptr) : (s.put p o).chan.ctx p = some o.2 :=
  lookup_update_const_self (hptr.trans (key_of_lookup hc)) hc

theorem ctx_put_ne {s : Domain} {p q : Nat} {c : InvokeCtx} {o : Waiter × InvokeCtx}
    (hc : s.chan.ctx p = some c) (hptr : o.2.ptr = c.ptr) (hq : q ≠ p) :
    (s.put p o).chan.ctx q = s.chan.ctx q :=
  lookup_update_const_ne (hptr.trans (key_of_lookup hc)) hq

/-- A step of a thread keeps the invariant. -/
theorem inv_put {s : Domain} {p : Nat} {c : InvokeCtx} {o : Waiter × InvokeCtx} (h : Inv s)
    (hc : s.chan.ctx p = some c) (ho : Turned s (s.waiter p) c o) : Inv (s.put p o) := by
  refine ⟨?_, h.drivers, h.notified, ?_⟩
  · intro q d hd
    by_cases hq : q = p
    · subst hq
      rw [ctx_put_self hc ho.ptr] at hd
      cases hd
      have hl := h.listed q c hc
      unfold Listed at hl ⊢
      rw [ho.hn, ho.vfl]
      exact hl
    · rw [ctx_put_ne hc ho.ptr hq] at hd
      exact h.listed q d hd
  · intro q d hd
    by_cases hq : q = p
    · subst hq
      rw [ctx_put_self hc ho.ptr] at hd
      cases hd
      have hok := h.calls q c hc
      have hwaiter : (s.put q o).waiter q = o.1 := waiter_setWaiter_self s q o.1
      have hrest : ∀ b, (b = true → atRest (s.waiter q).pc = true) → b ≠ true := by
        intro b hb hbt
        exact absurd (ho.inside.symm.trans (hb hbt)) nofun
      have hun : c.hn ≠ .unhashed := by
        intro hu
        exact absurd (ho.inside.symm.trans (hok.unhashed hu)) nofun
      have hnf : c.hn ≠ .fake := by
        intro hf
        exact absurd (ho.inside.symm.trans (congrArg atRest (hok.fake hf))) nofun
      rw [hwaiter]
      constructor
      · exact ho.isasyncjob.trans hok.sync
      · rw [ho.vfl]; exact hok.bound
      · rw [ho.phase, ho.hn]; exact hok.made
      · rw [ho.hn]; exact fun hf => absurd hf hnf
      · exact fun hu => absurd (ho.checked.symm.trans hu) nofun
      · rw [ho.hn]; exact fun hu => absurd hu hun
      · rw [ho.phase]; exact fun hl => absurd hl (hrest _ hok.leaving)
      · exact ho.waits hok.waits
      · intro n hn
        rcases ho.passed with hp | ⟨_, hp⟩
        · exact hok.passed n (hp.symm.trans hn)
        · cases hp.symm.trans hn
          exact Nat.le_refl _
      · intro n hn hlt _
        apply ho.done
        rcases ho.passed with hp | ⟨_, hp⟩
        · rw [ho.vfl] at hlt
          exact hok.done n (hp.symm.trans hn) hlt hun
        · -- a call that passes now has no shutdown behind it that was told to it
          cases hp.symm.trans hn
          exact absurd hlt (Nat.not_lt.mpr (reached_le h.notified _))
    · rw [ctx_put_ne hc ho.ptr hq] at hd
      have hwaiter : (s.put p o).waiter q = s.waiter q := waiter_setWaiter_ne s o.1 hq
      rw [hwaiter]
      exact (h.calls q d hd).congr rfl (Nat.le_refl _) rfl

/-! ## The notifier -/

/-- The loop of fastrpc_notify_users over a list: every context keeps its place, and those of
the list are done and have a wake-up. -/
theorem foldl_wake_cases {s : Chan} {l : List Nat} {q : Nat} {d : InvokeCtx}
    (h : (l.foldl wake s).ctx q = some d) :
    ∃ c, s.ctx q = some c ∧ Grown c d ∧ d.hn = c.hn ∧ d.phase = c.phase ∧
      (q ∈ l → d.is_work_done = true) := by
  induction l generalizing s with
  | nil => exact ⟨d, h, Grown.refl d, rfl, rfl, fun hq => absurd hq List.not_mem_nil⟩
  | cons p l ih =>
    obtain ⟨e, he, hg, hn, hph, hl⟩ := ih h
    unfold wake at he
    rcases setCtx_cases (by intro x; rfl) he with ⟨hq, he⟩ | ⟨rfl, c, hc, rfl⟩
    · refine ⟨e, he, hg, hn, hph, fun hm => ?_⟩
      rcases List.mem_cons.mp hm with hm | hm
      · exact absurd hm hq
      · exact hl hm
    · have hwake : Grown c (context_table.complete
          { c with is_work_done := true, retval := -ECONNRESET }) :=
        ⟨rfl, rfl, fun _ => rfl, Nat.le_succ _, fun _ => Or.inr (Nat.succ_pos _)⟩
      exact ⟨c, hc, hwake.trans hg, hn, hph, fun _ => hg.done rfl⟩

theorem notify_users_cases {s : Chan} {v q : Nat} {d : InvokeCtx}
    (h : (fastrpc_notify_users s v).ctx q = some d) :
    ∃ c, s.ctx q = some c ∧ Grown c d ∧ d.hn = c.hn ∧ d.phase = c.phase ∧
      (q ∈ (s.clst v).pending ∨ q ∈ (s.clst v).interrupted → d.is_work_done = true) := by
  obtain ⟨e, he, hg, hn, hph, hl⟩ := foldl_wake_cases h
  obtain ⟨c, hc, hg', hn', hph', hl'⟩ := foldl_wake_cases he
  refine ⟨c, hc, hg'.trans hg, hn.trans hn', hph.trans hph', ?_⟩
  rintro (hm | hm)
  · exact hg.done (hl' hm)
  · exact hl hm

theorem clst_foldl_wake (s : Chan) (l : List Nat) : (l.foldl wake s).clst = s.clst := by
  induction l generalizing s with
  | nil => rfl
  | cons p l ih => exact ih (wake s p)

theorem clst_notify_users (s : Chan) (v : Nat) : (fastrpc_notify_users s v).clst = s.clst := by
  unfold fastrpc_notify_users
  rw [clst_foldl_wake, clst_foldl_wake]

/-- The turn of fastrpc_notify_drivers for a session reaches every call of it that is on a
list. -/
theorem inv_notify_driver {s : Domain} {v : Nat} {rest : List Nat} (h : Inv s)
    (hn : s.notifier = .walking (v :: rest)) :
    Inv { notify_driver s v with notifier := .walking rest } := by
  have hreach : ∀ u ≠ v, Domain.reached { s with notifier := .walking rest } u = s.reached u := by
    intro u hu
    unfold Domain.reached
    rw [hn]
    simp [hu]
  unfold notify_driver
  split
  · refine ⟨?_, h.drivers, h.notified, ?_⟩
    · intro q d hd
      obtain ⟨c, hc, hg, hhn, _, _⟩ := notify_users_cases hd
      have hl := h.listed q c hc
      unfold Listed at hl ⊢
      dsimp only
      rw [clst_notify_users, hhn, hg.vfl]
      exact hl
    · intro q d hd
      obtain ⟨c, hc, hg, hhn, hph, hdone⟩ := notify_users_cases hd
      have hok := h.calls q c hc
      have hgrown : CallOk s q d (s.waiter q) := by
        apply hok.grow hg rfl id
        · rw [hph, hhn]; exact hok.made
        · rw [hhn]; exact hok.fake
        · exact id
        · rw [hhn]; exact hok.unhashed
        · rw [hph]; exact hok.leaving
        · rw [hhn]; exact id
      by_cases hv : d.vfl = v
      · refine ⟨hgrown.sync, hgrown.bound, hgrown.made, hgrown.fake, hgrown.unchecked,
          hgrown.unhashed, hgrown.leaving, hgrown.waits, hgrown.passed, ?_⟩
        intro n hp _ hu
        have hcv : c.vfl = v := hg.vfl.symm.trans hv
        have hl := h.listed q c hc
        unfold Listed at hl
        rw [hcv] at hl
        apply hdone
        -- a context without a list has not passed the check, or context_free has it
        cases hnode : c.hn with
        | fake =>
          have hnone := hok.unchecked (by rw [hok.fake hnode]; rfl)
          exact absurd (hnone.symm.trans hp) nofun
        | pending => exact Or.inl (hl.1 hnode)
        | interrupted => exact Or.inr (hl.2 hnode)
        | unhashed => exact absurd (hhn.trans hnode) hu
      · exact hgrown.congr rfl (Nat.le_refl _) (hreach d.vfl hv)
  · rename_i hb
    refine ⟨h.listed, h.drivers, h.notified, ?_⟩
    intro q d hd
    have hok := h.calls q d hd
    have hv : d.vfl ≠ v := by
      intro he
      exact hb (he ▸ hok.bound)
    exact hok.congr rfl (Nat.le_refl _) (hreach d.vfl hv)

theorem inv_notifier {s t : Domain} (h : Inv s) (ht : fastrpc_restart_notifier_cb s = some t) :
    Inv t := by
  unfold fastrpc_restart_notifier_cb at ht
  split at ht
  · rename_i hn
    cases ht
    refine ⟨h.listed, h.drivers, Nat.le_succ_of_le h.notified, fun q d hd => ?_⟩
    refine (h.calls q d hd).congr rfl (Nat.le_succ _) ?_
    simp [Domain.reached, hn]
  · rename_i hn
    cases ht
    refine ⟨h.listed, h.drivers, h.notified, fun q d hd => ?_⟩
    refine (h.calls q d hd).congr rfl (Nat.le_refl _) ?_
    simp [Domain.reached, hn]
  · rename_i hn
    cases ht
    refine ⟨h.listed, h.drivers, h.notified, fun q d hd => ?_⟩
    refine (h.calls q d hd).congr rfl (Nat.le_refl _) ?_
    simp [Domain.reached, hn, h.drivers _ (h.calls q d hd).bound]
  · rename_i v rest hn
    cases ht
    exact inv_notify_driver h hn
  · rename_i hn
    cases ht
    refine ⟨h.listed, h.drivers, Nat.le_refl _, fun q d hd => ?_⟩
    refine (h.calls q d hd).congr rfl (Nat.le_refl _) ?_
    simp [Domain.reached, hn]
  · rename_i hn
    cases ht
    refine ⟨h.listed, h.drivers, h.notified, fun q d hd => ?_⟩
    refine (h.calls q d hd).congr rfl (Nat.le_refl _) ?_
    simp [Domain.reached, hn]

/-! ## Every run -/

/-- A change of the sessions that leaves the sessions with a context bound. -/
theorem Inv.sessions {s t : Domain} (h : Inv s) (hchan : t.chan = s.chan)
    (hwaiter : t.waiter = s.waiter) (hdrivers : ∀ v, t.bound v = true → v ∈ t.drivers)
    (hnotified : t.notified = s.notified) (hshut : t.shutdowns = s.shutdowns)
    (hnotifier : t.notifier = s.notifier)
    (hbound : ∀ p c, s.chan.ctx p = some c → t.bound c.vfl = s.bound c.vfl) : Inv t := by
  have hreach : ∀ v, t.reached v = s.reached v := by
    intro v
    unfold Domain.reached
    rw [hnotifier, hnotified, hshut]
  refine ⟨by rw [hchan]; exact h.listed, hdrivers, by rw [hnotified, hshut]; exact h.notified, ?_⟩
  intro q d hd
  rw [hchan] at hd
  rw [hwaiter]
  exact (h.calls q d hd).congr (hbound q d hd) (Nat.le_of_eq hshut.symm) (hreach d.vfl)

theorem onWaiter_some {s t : Domain} {p : Nat}
    {f : Waiter → InvokeCtx → Option (Waiter × InvokeCtx)} (h : onWaiter s p f = some t) :
    ∃ c o, s.chan.ctx p = some c ∧ f (s.waiter p) c = some o ∧ t = s.put p o := by
  unfold onWaiter at h
  obtain ⟨c, hc, h⟩ := Option.bind_eq_some_iff.mp h
  obtain ⟨o, ho, h⟩ := Option.map_eq_some_iff.mp h
  exact ⟨c, o, hc, ho, h.symm⟩

/-- The thread that a step belongs to. -/
def thread : Act → Option Nat
  | .check p | .sent p | .fail p | .enter p _ | .turn p | .poll p _ | .signal p => some p
  | _ => none

theorem thread_step {sh : WaitShared} {s t : Domain} {a : Act} {p : Nat} (ha : thread a = some p)
    (ht : step sh s a = some t) :
    ∃ c o, s.chan.ctx p = some c ∧ Turned s (s.waiter p) c o ∧ t = s.put p o := by
  cases a with
  | check q =>
    cases ha
    obtain ⟨c, o, hc, ho, rfl⟩ := onWaiter_some ht
    refine ⟨c, o, hc, ?_, rfl⟩
    unfold invoke_check at ho
    split at ho
    · rename_i hpc
      split at ho
      · cases ho
        refine ⟨rfl, rfl, rfl, rfl, rfl, by rw [hpc]; rfl, id, ?_, rfl, Or.inr ⟨hpc, rfl⟩⟩
        intro hw hd _
        exact hw hd (by rw [hpc]; rfl)
      · cases ho
        exact .goto (by rw [hpc]; rfl) rfl (fun h => absurd h nofun)
    · cases ho
  | sent q =>
    cases ha
    obtain ⟨c, o, hc, ho, rfl⟩ := onWaiter_some ht
    refine ⟨c, o, hc, ?_, rfl⟩
    unfold from_to at ho
    split at ho
    · rename_i hpc
      cases ho
      exact .goto (by rw [hpc]; rfl) rfl (fun _ => Or.inl (by rw [hpc]; rfl))
    · cases ho
  | fail q =>
    cases ha
    simp only [step] at ht
    obtain ⟨c, o, hc, ho, rfl⟩ := onWaiter_some ht
    refine ⟨c, o, hc, ?_, rfl⟩
    split at ho
    · rename_i hpc
      cases ho
      apply Turned.goto
      · rcases hpc with hpc | hpc <;> rw [hpc] <;> rfl
      · rfl
      · exact fun h => absurd h nofun
    · cases ho
  | enter q poll_mode =>
    cases ha
    simp only [step] at ht
    obtain ⟨c, o, hc, ho, rfl⟩ := onWaiter_some ht
    refine ⟨c, o, hc, ?_, rfl⟩
    split at ho
    · rename_i hpc
      cases ho
      have hw : mayBlock (s.waiter p).pc = true := by rw [hpc]; rfl
      unfold enter_wait
      cases poll_mode with
      | false =>
        exact ⟨rfl, rfl, rfl, rfl, rfl, by rw [hpc]; rfl, id, fun h hd _ => h hd hw,
          rfl, Or.inl rfl⟩
      | true =>
        exact ⟨rfl, rfl, rfl, rfl, rfl, by rw [hpc]; rfl, id, fun h hd _ => h hd hw,
          rfl, Or.inl rfl⟩
    · cases ho
  | turn q =>
    cases ha
    obtain ⟨c, o, hc, ho, rfl⟩ := onWaiter_some ht
    exact ⟨c, o, hc, wait_turn_turned ho, rfl⟩
  | poll q r =>
    cases ha
    simp only [step] at ht
    obtain ⟨c, o, hc, ho, rfl⟩ := onWaiter_some ht
    exact ⟨c, o, hc, poll_turn_turned ho, rfl⟩
  | signal q =>
    cases ha
    simp only [step] at ht
    obtain ⟨c, o, hc, ho, rfl⟩ := onWaiter_some ht
    refine ⟨c, o, hc, ?_, rfl⟩
    split at ho
    · unfold from_to at ho
      split at ho
      · rename_i hpc
        cases ho
        exact .goto (by rw [hpc]; rfl) rfl (fun _ => Or.inl (by rw [hpc]; rfl))
      · cases ho
    · cases ho
  | _ => cases ha

theorem step_inv (sh : WaitShared) (s : Domain) (a : Act) (t : Domain) (h : Inv s)
    (ht : step sh s a = some t) : Inv t := by
  cases a with
  | open_session v =>
    simp only [step] at ht
    split at ht
    · cases ht
    · rename_i hno
      cases ht
      have hv : s.bound v = false := by
        by_contra hb
        exact hno (Or.inr (h.drivers v (by simpa using hb)))
      refine h.sessions rfl rfl ?_ rfl rfl rfl ?_
      · intro w hw
        by_cases hwv : w = v
        · simp [hwv]
        · simp only [hwv, if_false] at hw
          exact List.mem_cons_of_mem _ (h.drivers w hw)
      · intro p c hc
        have hb := (h.calls p c hc).bound
        have hne : c.vfl ≠ v := by
          intro he
          rw [he, hv] at hb
          cases hb
        simp [hne]
  | get_info v =>
    simp only [step] at ht
    split at ht
    · rename_i hv
      cases ht
      refine h.sessions rfl rfl ?_ rfl rfl rfl ?_
      · intro w hw
        by_cases hwv : w = v
        · rw [hwv]
          exact hv.1
        · simp only [hwv, if_false] at hw
          exact h.drivers w hw
      · intro p c hc
        have hb := (h.calls p c hc).bound
        dsimp only
        split
        · exact hb.symm
        · rfl
    · cases ht
  | channel_open v =>
    simp only [step] at ht
    split at ht
    · cases ht
      exact h.sessions rfl rfl h.drivers rfl rfl rfl (fun _ _ _ => rfl)
    · cases ht
      exact h
  | file_free v =>
    simp only [step] at ht
    split at ht
    · cases ht
    · rename_i hno
      cases ht
      refine h.sessions rfl rfl ?_ rfl rfl rfl ?_
      · intro w hw
        by_cases hwv : w = v
        · simp [hwv] at hw
        · simp only [hwv, if_false] at hw
          simpa [hwv] using h.drivers w hw
      · intro p c hc
        have hne : c.vfl ≠ v := by
          intro he
          apply hno
          refine Or.inr (List.any_eq_true.mpr ⟨c, mem_of_lookup hc, ?_⟩)
          simpa using he
        simp [hne]
  | ctx a =>
    simp only [step] at ht
    split at ht
    · obtain ⟨u, hu, rfl⟩ := Option.map_eq_some_iff.mp ht
      exact inv_ctx h ‹_› hu
    · cases ht
  | notifier => exact inv_notifier h ht
  | _ =>
    obtain ⟨c, o, hc, ho, rfl⟩ := thread_step rfl ht
    exact inv_put h hc ho

/-! ## The law -/

/-- The call at `p` passed the check of ssrcount when `n` shutdowns had begun, and since then
fastrpc_notify_drivers was done for a later one. -/
def Overtaken (s : Domain) (p n : Nat) : Prop :=
  (∃ c, s.chan.ctx p = some c) ∧ (s.waiter p).passed = some n ∧ n < s.notified

theorem foldl_wake_some {s : Chan} {l : List Nat} {q : Nat} {c : InvokeCtx}
    (h : s.ctx q = some c) : ∃ d, (l.foldl wake s).ctx q = some d := by
  induction l generalizing s c with
  | nil => exact ⟨c, h⟩
  | cons p l ih =>
    obtain ⟨d, hd⟩ := @ctx_setCtx_some s p q
      (fun x => context_table.complete { x with is_work_done := true, retval := -ECONNRESET }) c
      (by intro x; rfl) h
    exact ih hd

theorem follow_passed {s : Domain} {a : context_table.Act} {q : Nat} {c : InvokeCtx}
    (hmay : mayTake s a = true) (hc : s.chan.ctx q = some c) :
    ((follow s a).waiter q).passed = (s.waiter q).passed := by
  have hset : ∀ p pc, ((s.setWaiter p ((s.waiter p).goto pc)).waiter q).passed =
      (s.waiter q).passed := by
    intro p pc
    by_cases hq : q = p
    · subst hq
      rw [waiter_setWaiter_self]
      rfl
    · rw [waiter_setWaiter_ne s _ hq]
  cases a with
  | alloc_begin p v h k b =>
    have hq : q ≠ p := by
      rintro rfl
      simp [mayTake, hc] at hmay
    simp only [follow, waiter_setWaiter_ne s _ hq]
  | alloc_list p => exact hset p _
  | save_interrupted p => exact hset p _
  | restore_interrupted p => exact hset p _
  | _ => rfl

theorem overtaken_put {s : Domain} {p q n : Nat} {d : InvokeCtx} {o : Waiter × InvokeCtx}
    (h : Inv s) (ho : Overtaken s p n) (hd : s.chan.ctx q = some d)
    (hturn : Turned s (s.waiter q) d o) : Overtaken (s.put q o) p n := by
  obtain ⟨⟨c, hc⟩, hp, hn⟩ := ho
  by_cases hq : p = q
  · subst hq
    refine ⟨⟨o.2, ctx_put_self hd hturn.ptr⟩, ?_, hn⟩
    show ((s.setWaiter p o.1).waiter p).passed = some n
    rw [waiter_setWaiter_self]
    rcases hturn.passed with he | ⟨hready, _⟩
    · exact he.trans hp
    · -- a call at the check has not passed it
      have hnone := (h.calls p d hd).unchecked (by rw [hready]; rfl)
      exact absurd (hnone.symm.trans hp) nofun
  · refine ⟨⟨c, (ctx_put_ne hd hturn.ptr hq).trans hc⟩, ?_, hn⟩
    show ((s.setWaiter q o.1).waiter p).passed = some n
    rw [waiter_setWaiter_ne s o.1 hq]
    exact hp

/-- A call that a restart has overtaken stays so until it is freed. -/
theorem overtaken_step {sh : WaitShared} {s t : Domain} {a : Act} {p n : Nat} (h : Inv s)
    (ho : Overtaken s p n) (ha : a ≠ .ctx (.free_end p)) (ht : step sh s a = some t) :
    Overtaken t p n := by
  obtain ⟨⟨c, hc⟩, hp, hn⟩ := ho
  have hsync : ∀ p c, s.chan.ctx p = some c → c.isasyncjob = false :=
    fun p c hc => (h.calls p c hc).sync
  cases a with
  | open_session v =>
    simp only [step] at ht
    split at ht <;> cases ht
    exact ⟨⟨c, hc⟩, hp, hn⟩
  | get_info v =>
    simp only [step] at ht
    split at ht <;> cases ht
    exact ⟨⟨c, hc⟩, hp, hn⟩
  | channel_open v =>
    simp only [step] at ht
    split at ht <;> cases ht
    · exact ⟨⟨c, hc⟩, hp, hn⟩
    · exact ⟨⟨c, hc⟩, hp, hn⟩
  | file_free v =>
    simp only [step] at ht
    split at ht <;> cases ht
    exact ⟨⟨c, hc⟩, hp, hn⟩
  | ctx a =>
    simp only [step] at ht
    split at ht
    · rename_i hmay
      obtain ⟨u, hu, rfl⟩ := Option.map_eq_some_iff.mp ht
      obtain ⟨w, hw⟩ := follow_keeps s a
      refine ⟨chan_step_some hsync hu hc (fun he => ha (by rw [he])), ?_, ?_⟩
      · exact (follow_passed hmay hc).trans hp
      · rw [hw]
        exact hn
    · cases ht
  | notifier =>
    simp only [step, fastrpc_restart_notifier_cb] at ht
    split at ht
    · cases ht
      exact ⟨⟨c, hc⟩, hp, hn⟩
    · cases ht
      exact ⟨⟨c, hc⟩, hp, hn⟩
    · cases ht
      exact ⟨⟨c, hc⟩, hp, hn⟩
    · cases ht
      unfold notify_driver
      split
      · obtain ⟨d, hd⟩ := foldl_wake_some hc
        exact ⟨foldl_wake_some hd, hp, hn⟩
      · exact ⟨⟨c, hc⟩, hp, hn⟩
    · cases ht
      exact ⟨⟨c, hc⟩, hp, Nat.lt_of_lt_of_le hn h.notified⟩
    · cases ht
      exact ⟨⟨c, hc⟩, hp, hn⟩
  | _ =>
    obtain ⟨d, o, hd, hturn, rfl⟩ := thread_step rfl ht
    exact overtaken_put h ⟨⟨c, hc⟩, hp, hn⟩ hd hturn

/-- In every run, with calls that are sent, answered, interrupted and resumed in any order, and
restarts of the subsystem at any time: once fastrpc_notify_drivers is done, a call that passed
the check of ssrcount before the shutdown is marked as done until context_free takes it from
its list, and its thread never waits for a completion without a wake-up, then or at any later
time before the context is gone. -/
theorem a_restart_leaves_no_call_waiting (sh : WaitShared) {pre post : List Act} {s t : Domain}
    {p n : Nat} (hpre : run (step sh) init pre = some s) (ho : Overtaken s p n)
    (hpost : run (step sh) s post = some t) (hlive : .ctx (.free_end p) ∉ post) :
    ∃ c, t.chan.ctx p = some c ∧ (c.hn ≠ .unhashed → c.is_work_done = true) ∧
      ((t.waiter p).pc = .blocked → 0 < c.work) := by
  have hs : Inv s := run_inv Inv (step_inv sh) inv_init hpre
  have hrun : Inv t ∧ Overtaken t p n := by
    clear hpre
    induction post generalizing s with
    | nil =>
      cases hpost
      exact ⟨hs, ho⟩
    | cons a post ih =>
      obtain ⟨u, hu, hpost⟩ := Option.bind_eq_some_iff.mp hpost
      have ha : a ≠ .ctx (.free_end p) := fun he => hlive (he ▸ List.mem_cons_self)
      exact ih (overtaken_step hs ho ha hu) hpost
        (fun hm => hlive (List.mem_cons_of_mem _ hm)) (step_inv sh s a u hs hu)
  obtain ⟨ht, ⟨c, hc⟩, hp, hn⟩ := hrun
  have hok := ht.calls p c hc
  have hdone : c.hn ≠ .unhashed → c.is_work_done = true :=
    hok.done n hp (Nat.lt_of_lt_of_le hn (notified_le_reached ht.notified _))
  refine ⟨c, hc, hdone, ?_⟩
  intro hpc
  have hhn : c.hn ≠ .unhashed := by
    intro hu
    exact absurd (hok.unhashed hu) (by rw [hpc]; nofun)
  exact hok.waits (hdone hhn) (by rw [hpc]; rfl)

/-- A call that is sent and waits when the subsystem goes down, and is then interrupted and
parked: after the walk of the notifier the resumed thread finds its wake-up. -/
theorem an_interrupted_call_is_woken_by_the_restart :
    ∃ s c, run (step ⟨sampleShared, 4⟩) init
        ([.open_session 0, .get_info 0, .channel_open 0, .ctx (.alloc_begin 7 0 30 false false),
          .ctx (.alloc_entry 7), .ctx (.alloc_list 7), .check 7, .sent 7, .enter 7 false,
          .turn 7, .notifier, .notifier, .signal 7, .ctx (.save_interrupted 7)] ++
        [.notifier, .notifier, .notifier, .ctx (.restore_interrupted 7), .enter 7 false,
          .turn 7]) = some s ∧
      s.chan.ctx 7 = some c ∧ (s.waiter 7).pc = .blocked ∧ c.is_work_done = true ∧
      0 < c.work := by
  obtain ⟨c, hc, hdone, hwork⟩ := @a_restart_leaves_no_call_waiting ⟨sampleShared, 4⟩
    [.open_session 0, .get_info 0, .channel_open 0, .ctx (.alloc_begin 7 0 30 false false),
      .ctx (.alloc_entry 7), .ctx (.alloc_list 7), .check 7, .sent 7, .enter 7 false,
      .turn 7, .notifier, .notifier, .signal 7, .ctx (.save_interrupted 7), .notifier,
      .notifier, .notifier]
    [.ctx (.restore_interrupted 7), .enter 7 false, .turn 7] _ _ 7 0 rfl
    ⟨⟨_, rfl⟩, rfl, by decide⟩ rfl (by decide)
  cases hc
  exact ⟨_, _, rfl, rfl, rfl, hdone (by decide), hwork rfl⟩

end virtual_fastrpc.restart_waits
