-- What a synchronous call of the hybrid driver does once its message is sent: it
-- waits for the end of its job, and only then copies the results and frees its
-- context. The DSP works in the buffers of the context meanwhile.
import PlatformKernel.RestartRuns

namespace virtual_fastrpc.sent_jobs

open virtual_fastrpc.context_table virtual_fastrpc.restart_waits keyed step_runs

/-! ## The calls and why they are done -/

/-- What has set `is_work_done`. -/
inductive Cause
  | response (flags : BitVec 32)
  | poll
  | restart
  deriving DecidableEq, Repr

/-- The calls of a domain. The last field is for the laws only. -/
structure Jobs where
  dom : Domain
  /-- hfastrpc_invoke_send has given the message to the transport. -/
  sent : Nat → Bool
  /-- The flags for which hfastrpc_wait_for_completion has set `interrupted` to EBADR. -/
  refused : Nat → Option (BitVec 32)
  /-- put_args is done. -/
  put : Nat → Bool
  causes : Nat → List Cause

def Jobs.init :
    Jobs := ⟨restart_waits.init, fun _ => false, fun _ => none, fun _ => false, fun _ => []⟩

variable (sh : WaitShared)

/-- The flags that hfastrpc_wait_for_completion has a case for. -/
def supported (flags : BitVec 32) : Bool :=
  flags == sh.USER_EARLY_SIGNAL || flags == sh.EARLY_RESPONSE || flags == sh.COMPLETE_SIGNAL ||
    flags == sh.NORMAL_RESPONSE || flags == sh.POLL_MODE

/-- The step is the `default` case of the switch for the call at `p`. -/
def refusal (s : Domain) (p : Nat) : restart_waits.Act → Option (BitVec 32)
  | .turn q =>
    if q = p ∧ (s.waiter p).pc = .switch then
      ((s.chan.ctx p).map (·.rsp_flags)).filter (fun f => !supported sh f)
    else none
  | _ => none

/-- The poll word holds what ends the call at this place. -/
def answers : Pc → Poll → Bool
  | .polling_response, .early_wakeup | .polling_response, .response => true
  | .polling_mode, .response => true
  | _, _ => false

/-- The step is one that sets `is_work_done` for the call at `p`. -/
def cause (s : Domain) (p : Nat) : restart_waits.Act → Option Cause
  | .ctx (.response r) =>
    if (fastrpc_handle_rpc_response sh.toAdsprpcShared s.chan r).2 = .applied p ∧
        (rspFlags sh.toAdsprpcShared r = sh.NORMAL_RESPONSE ∨
          rspFlags sh.toAdsprpcShared r = sh.COMPLETE_SIGNAL) then
      some (.response (rspFlags sh.toAdsprpcShared r))
    else none
  | .poll q r => if q = p ∧ answers (s.waiter p).pc r then some .poll else none
  | .notifier =>
    match s.notifier with
    | .walking (v :: _) =>
      if s.bound v ∧ (p ∈ (s.chan.clst v).pending ∨ p ∈ (s.chan.clst v).interrupted) then
        some .restart
      else none
    | _ => none
  | _ => none

/-- The step begins a call with its context at `p`. -/
def begins (p : Nat) : restart_waits.Act → Bool
  | .ctx (.alloc_begin q _ _ _ _) => q == p
  | _ => false

/-- A step of the domain, and what the calls learn from it. -/
def Jobs.after (s : Jobs) (a : restart_waits.Act) (dom : Domain) : Jobs where
  dom := dom
  sent := fun p => !begins p a && (a == .sent p || s.sent p)
  refused := fun p => if begins p a then none else (refusal sh s.dom p a).or (s.refused p)
  put := fun p => !begins p a && s.put p
  causes := fun p => if begins p a then [] else (cause sh s.dom p a).toList ++ s.causes p

/-- hfastrpc_internal_invoke goes through put_args: the wait was not interrupted, and the job is
done. -/
def Jobs.puts (s : Jobs) (p : Nat) : Bool :=
  s.sent p && (s.refused p).isNone && (s.dom.chan.ctx p).any (·.is_work_done)

inductive Act
  | dom (a : restart_waits.Act)
  | put_args (p : Nat)
  deriving DecidableEq, Repr

/-- The call of context_free comes after put_args when the call goes through it. -/
def mayDo (s : Jobs) : restart_waits.Act → Bool
  | .ctx (.free p) => s.put p || !s.puts p
  | _ => true

def step (s : Jobs) : Act → Option Jobs
  | .dom a =>
    if mayDo s a then (restart_waits.step sh s.dom a).map (s.after sh a) else none
  | .put_args p =>
    if (s.dom.waiter p).pc = .out ∧ s.puts p ∧ s.put p = false ∧
        (s.dom.chan.ctx p).any (·.phase == .live) then
      some { s with put := fun q => q == p || s.put q }
    else none

/-! ## How a call becomes done -/

variable {sh}

/-- Each context that is done was there before, and done. -/
def DoneFrom (s t : Chan) : Prop :=
  ∀ q d, t.ctx q = some d → d.is_work_done = true → ∃ c, s.ctx q = some c ∧ c.is_work_done = true

theorem DoneFrom.trans {s t u : Chan} (h : DoneFrom s t) (h' : DoneFrom t u) : DoneFrom s u := by
  intro q e he hdone
  obtain ⟨d, hd, hdone⟩ := h' q e he hdone
  exact h q d hd hdone

theorem DoneFrom.setCtx (s : Chan) (p : Nat) {f : InvokeCtx → InvokeCtx}
    (hptr : ∀ x, (f x).ptr = x.ptr) (hf : ∀ x, (f x).is_work_done = x.is_work_done) :
    DoneFrom s (s.setCtx p f) := by
  intro q d hd hdone
  rcases setCtx_cases hptr hd with ⟨_, hd⟩ | ⟨rfl, c, hc, rfl⟩
  · exact ⟨d, hd, hdone⟩
  · exact ⟨c, hc, (hf c).symm.trans hdone⟩

/-- A response whose flags do not end the job of a synchronous call. -/
theorem notify_user_done {sh : AdsprpcShared} {s : Chan} {c : InvokeCtx} {retval : Int}
    {flags early : BitVec 32} (hsync : c.isasyncjob = false)
    (hflags : ¬(flags = sh.NORMAL_RESPONSE ∨ flags = sh.COMPLETE_SIGNAL)) :
    DoneFrom s (context_notify_user sh s c retval flags early) := by
  have hset : DoneFrom s (s.setCtx c.ptr (fun x => { x with retval, rsp_flags := flags })) :=
    DoneFrom.setCtx s c.ptr (fun _ => rfl) (fun _ => rfl)
  unfold context_notify_user
  simp only [if_neg hflags, hsync, Bool.false_eq_true, if_false]
  split
  · refine (hset.trans ?_).trans
      (DoneFrom.setCtx _ c.ptr (f := complete) (fun _ => rfl) (fun _ => rfl))
    exact DoneFrom.setCtx _ c.ptr (fun _ => rfl) (fun _ => rfl)
  split
  · exact hset.trans (DoneFrom.setCtx _ c.ptr (f := complete) (fun _ => rfl) (fun _ => rfl))
  · exact hset

/-- The sections of the channel other than a response leave a call as done as it was. -/
theorem chan_done {sh : AdsprpcShared} {s t : Chan} {a : context_table.Act}
    (hsync : ∀ p c, s.ctx p = some c → c.isasyncjob = false)
    (ht : context_table.step sh s a = some t) {q : Nat} {d : InvokeCtx} (hd : t.ctx q = some d)
    (hdone : d.is_work_done = true) :
    (∃ c, s.ctx q = some c ∧ c.is_work_done = true) ∨
      ∃ r, a = .response r ∧ (fastrpc_handle_rpc_response sh s r).2 = .applied q ∧
        (rspFlags sh r = sh.NORMAL_RESPONSE ∨ rspFlags sh r = sh.COMPLETE_SIGNAL) := by
  cases a with
  | response r =>
    cases ht
    rcases response_notifies sh s r with ⟨c, early, _, hc, _, he⟩ | ⟨_, n, he⟩
    · rw [he] at hd
      by_cases hflags : rspFlags sh r = sh.NORMAL_RESPONSE ∨ rspFlags sh r = sh.COMPLETE_SIGNAL
      · obtain ⟨f, hf, hquiet, _⟩ :=
          notify_user_sync sh s (hsync _ _ hc) r.retval (rspFlags sh r) early
        simp only [hf] at hd
        rcases setCtx_cases (fun x => (hquiet x).1) hd with ⟨_, hd⟩ | ⟨rfl, _⟩
        · exact Or.inl ⟨d, hd, hdone⟩
        · exact Or.inr ⟨r, rfl, by rw [he], hflags⟩
      · exact Or.inl (notify_user_done (hsync _ _ hc) hflags q d hd hdone)
    · rw [he] at hd
      exact Or.inl ⟨d, hd, hdone⟩
  | alloc_begin p v h k b =>
    rcases alloc_begin_cases ht with rfl | ⟨_, rfl⟩
    · exact Or.inl ⟨d, hd, hdone⟩
    · rcases ctx_cons_cases rfl hd with ⟨_, rfl⟩ | hd
      · cases hdone
      · exact Or.inl ⟨d, hd, hdone⟩
  | alloc_entry p =>
    obtain ⟨c, _, _, rfl⟩ := onCtx_some ht
    refine Or.inl ?_
    unfold context_alloc_entry at hd
    dsimp only at hd
    split at hd
    · exact DoneFrom.setCtx s c.ptr (f := .enter _) (fun _ => rfl) (fun _ => rfl) q d hd hdone
    · exact DoneFrom.setCtx s c.ptr (f := .goto .dying) (fun _ => rfl) (fun _ => rfl) q d hd hdone
  | free_entry p =>
    obtain ⟨c, _, _, rfl⟩ := onCtx_some ht
    have hset := DoneFrom.setCtx s c.ptr (f := .goto .unlinked) (fun _ => rfl) (fun _ => rfl)
    rw [ctx_free_entry] at hd
    exact Or.inl (hset q d hd hdone)
  | free_list p =>
    obtain ⟨c, _, _, rfl⟩ := onCtx_some ht
    refine Or.inl ?_
    unfold context_free_list at hd
    split at hd
    · exact DoneFrom.setCtx s c.ptr (f := .goto .delisted) (fun _ => rfl)
        (fun _ => rfl) q d hd hdone
    · exact DoneFrom.setCtx s c.ptr (f := fun x => { x with hn := .unhashed, phase := .delisted })
        (fun _ => rfl) (fun _ => rfl) q d hd hdone
  | free_end p =>
    obtain ⟨c, _, _, rfl⟩ := onCtx_some ht
    exact Or.inl ⟨d, ctx_free_end hd, hdone⟩
  | alloc_fail p | free p =>
    obtain ⟨c, _, _, rfl⟩ := onCtx_some ht
    exact Or.inl (DoneFrom.setCtx s c.ptr (f := .goto .dying) (fun _ => rfl)
      (fun _ => rfl) q d hd hdone)
  | alloc_list p =>
    obtain ⟨c, _, _, rfl⟩ := onCtx_some ht
    exact Or.inl (DoneFrom.setCtx s c.ptr (f := fun x => { x with hn := .pending, phase := .live })
      (fun _ => rfl) (fun _ => rfl) q d hd hdone)
  | save_interrupted p =>
    obtain ⟨c, _, _, rfl⟩ := onCtx_some ht
    exact Or.inl (DoneFrom.setCtx s c.ptr (f := fun x => { x with hn := .interrupted })
      (fun _ => rfl) (fun _ => rfl) q d hd hdone)
  | restore_interrupted p =>
    obtain ⟨c, _, _, rfl⟩ := onCtx_some ht
    exact Or.inl (DoneFrom.setCtx s c.ptr (f := fun x => { x with hn := .pending })
      (fun _ => rfl) (fun _ => rfl) q d hd hdone)
  | dtor p =>
    obtain ⟨c, _, _, rfl⟩ := onCtx_some ht
    exact Or.inl (DoneFrom.setCtx s c.ptr
      (f := fun x => { x with hn := .unhashed, phase := .dying })
      (fun _ => rfl) (fun _ => rfl) q d hd hdone)

theorem foldl_wake_done {s : Chan} {l : List Nat} {q : Nat} {d : InvokeCtx}
    (hd : (l.foldl wake s).ctx q = some d) (hdone : d.is_work_done = true) :
    (∃ c, s.ctx q = some c ∧ c.is_work_done = true) ∨ q ∈ l := by
  induction l generalizing s with
  | nil => exact Or.inl ⟨d, hd, hdone⟩
  | cons p l ih =>
    rcases ih hd with ⟨e, he, hedone⟩ | hm
    · rcases setCtx_cases (by intro x; rfl) he with ⟨_, he⟩ | ⟨rfl, _⟩
      · exact Or.inl ⟨e, he, hedone⟩
      · exact Or.inr List.mem_cons_self
    · exact Or.inr (List.mem_cons_of_mem _ hm)

theorem notify_users_done {s : Chan} {v q : Nat} {d : InvokeCtx}
    (hd : (fastrpc_notify_users s v).ctx q = some d) (hdone : d.is_work_done = true) :
    (∃ c, s.ctx q = some c ∧ c.is_work_done = true) ∨
      q ∈ (s.clst v).pending ∨ q ∈ (s.clst v).interrupted := by
  rcases foldl_wake_done hd hdone with ⟨c, hc, hcdone⟩ | hm
  · rcases foldl_wake_done hc hcdone with h | hm
    · exact Or.inl h
    · exact Or.inr (Or.inl hm)
  · exact Or.inr (Or.inr hm)

/-- The notifier leaves every thread where it is, and every context; a call that it has made done
is one it has come by. -/
theorem notifier_done {sh : WaitShared} {s t : Domain}
    (ht : fastrpc_restart_notifier_cb s = some t) :
    t.waiter = s.waiter ∧ ∀ q d, t.chan.ctx q = some d → ∃ c, s.chan.ctx q = some c ∧
      (c.is_work_done = true → d.is_work_done = true) ∧
      (d.is_work_done = true → c.is_work_done = true ∨ cause sh s q .notifier ≠ none) := by
  have hsame : ∀ {u : Domain}, u.chan = s.chan → ∀ q d, u.chan.ctx q = some d →
      ∃ c, s.chan.ctx q = some c ∧ (c.is_work_done = true → d.is_work_done = true) ∧
        (d.is_work_done = true → c.is_work_done = true ∨ cause sh s q .notifier ≠ none) := by
    intro u hu q d hd
    rw [hu] at hd
    exact ⟨d, hd, id, Or.inl⟩
  unfold fastrpc_restart_notifier_cb at ht
  split at ht
  · cases ht
    exact ⟨rfl, hsame rfl⟩
  · cases ht
    exact ⟨rfl, hsame rfl⟩
  · cases ht
    exact ⟨rfl, hsame rfl⟩
  · rename_i v rest hwalk
    cases ht
    unfold notify_driver
    split
    · rename_i hbound
      refine ⟨rfl, fun q d hd => ?_⟩
      obtain ⟨c, hc, hg, _⟩ := notify_users_cases hd
      refine ⟨c, hc, hg.done, fun hdone => ?_⟩
      rcases notify_users_done hd hdone with ⟨c', hc', hcdone⟩ | hm
      · cases hc.symm.trans hc'
        exact Or.inl hcdone
      · refine Or.inr ?_
        simp [cause, hwalk, hbound, hm]
    · exact ⟨rfl, hsame rfl⟩
  · cases ht
    exact ⟨rfl, hsame rfl⟩
  · cases ht
    exact ⟨rfl, hsame rfl⟩

/-! ## What a step of the thread tells -/

/-- The thread has not sent its message yet. -/
def unsent : Pc → Bool
  | .alloc | .ready | .checked => true
  | _ => false

/-- What a step of the thread at `p` does: it makes its call done only with a cause, and it leaves
the waiting loop only with a call that is done, or with flags that it refuses. -/
structure Told (sh : WaitShared) (s : Domain) (a : restart_waits.Act) (p : Nat) (c : InvokeCtx)
    (o : Waiter × InvokeCtx) : Prop where
  ptr : o.2.ptr = c.ptr
  done : o.2.is_work_done = true → c.is_work_done = true ∨ cause sh s p a ≠ none
  early : unsent o.1.pc = true → unsent (s.waiter p).pc = true ∧ a ≠ .sent p
  out : o.1.pc = .out → unsent (s.waiter p).pc = true ∧ a ≠ .sent p ∨ o.2.is_work_done = true ∨
    refusal sh s p a ≠ none

section

variable {sh : WaitShared} {s t : Domain} {a : restart_waits.Act} {p : Nat} {c d : InvokeCtx}
  {w : Waiter} {o : Waiter × InvokeCtx}

/-- A step inside of the waiting loop, or to it. -/
theorem Told.stay {pc : Pc} (hptr : d.ptr = c.ptr) (hdone : d.is_work_done = c.is_work_done)
    (hpc : unsent pc = false) (hout : pc ≠ .out) : Told sh s a p c (w.goto pc, d) where
  ptr := hptr
  done := fun h => Or.inl (hdone ▸ h)
  early := fun h => absurd (hpc.symm.trans h) nofun
  out := fun h => absurd h hout

/-- The end of the waiting loop. -/
theorem Told.leave (hdone : c.is_work_done = true) : Told sh s a p c (w.goto .out, c) where
  ptr := rfl
  done := Or.inl
  early := nofun
  out := fun _ => Or.inr (Or.inl hdone)

/-- A step before the message is sent. -/
theorem Told.before (hpc : unsent (s.waiter p).pc = true) (ha : a ≠ .sent p) :
    Told sh s a p c (w, c) where
  ptr := rfl
  done := Or.inl
  early := fun _ => ⟨hpc, ha⟩
  out := fun _ => Or.inl ⟨hpc, ha⟩

theorem told_wait_turn (hc : s.chan.ctx p = some c) (ho : wait_turn sh (s.waiter p) c = some o) :
    Told sh s (.turn p) p c o := by
  unfold wait_turn at ho
  split at ho
  · rename_i hpc
    split at ho
    · cases ho
      exact .stay rfl rfl rfl nofun
    split at ho
    · cases ho
      exact .stay rfl rfl rfl nofun
    split at ho
    · cases ho
      exact .stay rfl rfl rfl nofun
    split at ho
    · cases ho
      exact .stay rfl rfl rfl nofun
    · -- the default case of the switch
      rename_i h1 h2 h3 h4
      cases ho
      have hno : supported sh c.rsp_flags = false := by
        rw [not_or] at h3
        simp [supported, h1, h2, h3.1, h3.2, h4]
      refine ⟨rfl, Or.inl, nofun, fun _ => Or.inr (Or.inr ?_)⟩
      simp [refusal, hpc, hc, hno]
  · split at ho
    · split at ho
      · cases ho
        exact .stay rfl rfl rfl nofun
      · cases ho
        exact .stay rfl rfl rfl nofun
    · cases ho
      exact .stay rfl rfl rfl nofun
  · split at ho
    · cases ho
      exact .stay rfl rfl rfl nofun
    · cases ho
      exact .stay rfl rfl rfl nofun
  · split at ho
    · cases ho
      exact .stay rfl rfl rfl nofun
    · cases ho
  · split at ho
    · rename_i hdone
      cases ho
      exact .leave hdone
    · cases ho
      exact .stay rfl rfl rfl nofun
  · split at ho
    · rename_i hdone
      cases ho
      exact .leave hdone
    · cases ho
      exact .stay rfl rfl rfl nofun
  · cases ho

theorem told_poll_turn {r : Poll} (ho : poll_turn sh (s.waiter p) c r = some o) :
    Told sh s (.poll p r) p c o := by
  unfold poll_turn at ho
  split at ho
  · rename_i hpc
    cases r with
    | timeout =>
      cases ho
      exact .stay rfl rfl rfl nofun
    | early_wakeup | response =>
      cases ho
      have hcause : ∀ r, r ≠ .timeout → cause sh s p (.poll p r) ≠ none := by
        intro r hr
        cases r with
        | timeout => exact absurd rfl hr
        | early_wakeup | response => simp [cause, hpc, answers]
      exact ⟨rfl, fun _ => Or.inr (hcause _ nofun), nofun, fun _ => Or.inr (Or.inl rfl)⟩
  · rename_i hpc
    cases r with
    | timeout | early_wakeup =>
      cases ho
      exact .stay rfl rfl rfl nofun
    | response =>
      cases ho
      refine ⟨rfl, fun _ => Or.inr ?_, nofun, nofun⟩
      simp [cause, hpc, answers]
  · cases ho

theorem told_step (ha : thread a = some p) (ht : restart_waits.step sh s a = some t) :
    ∃ c o, s.chan.ctx p = some c ∧ Told sh s a p c o ∧ t = s.put p o := by
  cases a with
  | check q =>
    cases ha
    obtain ⟨c, o, hc, ho, rfl⟩ := onWaiter_some ht
    refine ⟨c, o, hc, ?_, rfl⟩
    unfold invoke_check at ho
    split at ho
    · rename_i hpc
      have hun : unsent (s.waiter p).pc = true := by rw [hpc]; rfl
      split at ho
      · cases ho
        exact .before hun (by rintro ⟨⟩)
      · cases ho
        exact .before hun (by rintro ⟨⟩)
    · cases ho
  | sent q =>
    cases ha
    obtain ⟨c, o, hc, ho, rfl⟩ := onWaiter_some ht
    obtain ⟨_, ⟨⟩⟩ := Option.ite_none_right_eq_some.mp ho
    refine ⟨c, _, hc, ?_, rfl⟩
    exact .stay rfl rfl rfl (by rintro ⟨⟩)
  | fail q =>
    cases ha
    simp only [restart_waits.step] at ht
    obtain ⟨c, o, hc, ho, rfl⟩ := onWaiter_some ht
    obtain ⟨hpc, ⟨⟩⟩ := Option.ite_none_right_eq_some.mp ho
    refine ⟨c, _, hc, .before ?_ (by rintro ⟨⟩), rfl⟩
    rcases hpc with hpc | hpc <;> rw [hpc] <;> rfl
  | enter q poll_mode =>
    cases ha
    simp only [restart_waits.step] at ht
    obtain ⟨c, o, hc, ho, rfl⟩ := onWaiter_some ht
    obtain ⟨_, ⟨⟩⟩ := Option.ite_none_right_eq_some.mp ho
    refine ⟨c, _, hc, ?_, rfl⟩
    unfold enter_wait
    cases poll_mode with
    | false => exact ⟨rfl, Or.inl, by rintro ⟨⟩, by rintro ⟨⟩⟩
    | true => exact ⟨rfl, Or.inl, by rintro ⟨⟩, by rintro ⟨⟩⟩
  | turn q =>
    cases ha
    obtain ⟨c, o, hc, ho, rfl⟩ := onWaiter_some ht
    exact ⟨c, o, hc, told_wait_turn hc ho, rfl⟩
  | poll q r =>
    cases ha
    simp only [restart_waits.step] at ht
    obtain ⟨c, o, hc, ho, rfl⟩ := onWaiter_some ht
    exact ⟨c, o, hc, told_poll_turn ho, rfl⟩
  | signal q =>
    cases ha
    simp only [restart_waits.step] at ht
    obtain ⟨c, o, hc, ho, rfl⟩ := onWaiter_some ht
    obtain ⟨_, ho⟩ := Option.ite_none_right_eq_some.mp ho
    obtain ⟨_, ⟨⟩⟩ := Option.ite_none_right_eq_some.mp ho
    refine ⟨c, _, hc, ?_, rfl⟩
    exact .stay rfl rfl rfl (by rintro ⟨⟩)
  | _ => cases ha

end

/-! ## Runs -/

/-- What holds of a context, and of the call that it is for. -/
structure JobOk (sh : WaitShared) (s : Jobs) (p : Nat) (c : InvokeCtx) : Prop where
  caused : c.is_work_done = true → s.causes p ≠ []
  early : unsent (s.dom.waiter p).pc = true → s.sent p = false
  out : (s.dom.waiter p).pc = .out → s.sent p = true → c.is_work_done = true ∨
    ∃ f, s.refused p = some f ∧ supported sh f = false

theorem refusal_unsupported {sh : WaitShared} {s : Domain} {p : Nat} {a : restart_waits.Act}
    {f : BitVec 32} (h : refusal sh s p a = some f) : supported sh f = false := by
  unfold refusal at h
  split at h
  · obtain ⟨_, h⟩ := Option.ite_none_right_eq_some.mp h
    simpa using (Option.filter_eq_some_iff.mp h).2
  · cases h

/-- The law of a call that was there before a step. -/
theorem JobOk.after {sh : WaitShared} {s : Jobs} {a : restart_waits.Act} {t : Domain} {q : Nat}
    {c d : InvokeCtx} (h : JobOk sh s q c) (hnew : begins q a = false)
    (hdone : d.is_work_done = true → c.is_work_done = true ∨ cause sh s.dom q a ≠ none)
    (hearly : unsent (t.waiter q).pc = true → unsent (s.dom.waiter q).pc = true ∧ a ≠ .sent q)
    (hout : (t.waiter q).pc = .out →
      ((s.dom.waiter q).pc = .out ∧ a ≠ .sent q ∧ (c.is_work_done = true → d.is_work_done = true)) ∨
      (unsent (s.dom.waiter q).pc = true ∧ a ≠ .sent q) ∨ d.is_work_done = true ∨
        refusal sh s.dom q a ≠ none) : JobOk sh (s.after sh a t) q d := by
  have hsent : a ≠ .sent q → (s.after sh a t).sent q = s.sent q := by
    intro ha
    simp [Jobs.after, hnew, ha]
  have hcauses : (s.after sh a t).causes q = (cause sh s.dom q a).toList ++ s.causes q := by
    simp [Jobs.after, hnew]
  have hrefused : (s.after sh a t).refused q = (refusal sh s.dom q a).or (s.refused q) := by
    simp [Jobs.after, hnew]
  refine ⟨fun hd => ?_, fun hpc => ?_, fun hpc hs => ?_⟩
  · rw [hcauses]
    rcases hdone hd with hc | hc
    · exact List.append_ne_nil_of_right_ne_nil _ (h.caused hc)
    · exact List.append_ne_nil_of_left_ne_nil (by simpa using hc) _
  · obtain ⟨hun, ha⟩ := hearly hpc
    rw [hsent ha]
    exact h.early hun
  · rw [hrefused]
    rcases hr : refusal sh s.dom q a with _ | f
    · rcases hout hpc with ⟨hold, ha, hkeep⟩ | ⟨hun, ha⟩ | hd | hno
      · rw [hsent ha] at hs
        exact (h.out hold hs).imp_left hkeep
      · rw [hsent ha, h.early hun] at hs
        cases hs
      · exact Or.inl hd
      · exact absurd hr hno
    · exact Or.inr ⟨f, rfl, refusal_unsupported hr⟩

/-- The calls in a domain that a run has led to. -/
structure Inv (sh : WaitShared) (s : Jobs) : Prop where
  dom : restart_waits.Inv s.dom
  jobs : ∀ p c, s.dom.chan.ctx p = some c → JobOk sh s p c

theorem inv_init (sh : WaitShared) : Inv sh Jobs.init where
  dom := restart_waits.inv_init
  jobs := by intro p c h; cases h

/-- Where a section of the channel takes the thread that it takes along. -/
theorem follow_turned {s : Domain} {a : context_table.Act} {q : Nat} (h : turned a = some q) :
    (a = .alloc_list q ∧ ((follow s a).waiter q).pc = .ready) ∨
      ((follow s a).waiter q).pc = .parked ∨ ((follow s a).waiter q).pc = .wait := by
  cases a with
  | alloc_list p =>
    cases h
    simp [follow, waiter_setWaiter_self, Waiter.goto]
  | save_interrupted p =>
    cases h
    simp [follow, waiter_setWaiter_self, Waiter.goto]
  | restore_interrupted p =>
    cases h
    simp [follow, waiter_setWaiter_self, Waiter.goto]
  | _ => cases h

/-- A section of the channel. -/
theorem jobs_ctx {sh : WaitShared} {s : Jobs} {a : context_table.Act} {t : Chan} (h : Inv sh s)
    (hmay : mayTake s.dom a = true)
    (ht : context_table.step sh.toAdsprpcShared s.dom.chan a = some t) {q : Nat} {d : InvokeCtx}
    (hd : t.ctx q = some d) :
    JobOk sh (s.after sh (.ctx a) { follow s.dom a with chan := t }) q d := by
  have hsync : ∀ p c, s.dom.chan.ctx p = some c → c.isasyncjob = false :=
    fun p c hc => (h.dom.calls p c hc).sync
  rcases chan_step_cases hsync ht hd with ⟨v, hh, k, b, rfl, _, rfl⟩ | ⟨c, hc, hg, hm⟩
  · have hnew : begins q (.ctx (.alloc_begin q v hh k b)) = true := by simp [begins]
    refine ⟨by rintro ⟨⟩, fun _ => by simp [Jobs.after, hnew], fun hpc => ?_⟩
    have hpc' : (follow s.dom (.alloc_begin q v hh k b)).waiter q = ⟨.alloc, 0, none⟩ :=
      waiter_setWaiter_self _ _ _
    have hpc : ((follow s.dom (.alloc_begin q v hh k b)).waiter q).pc = .out := hpc
    rw [hpc'] at hpc
    cases hpc
  · have hnot : ∀ v hh k b, a ≠ .alloc_begin q v hh k b := by
      rintro v hh k b rfl
      simp only [mayTake, Bool.and_eq_true, Option.isNone_iff_eq_none] at hmay
      rw [hc] at hmay
      cases hmay.2
    have hnew : begins q (.ctx a) = false := by
      cases a with
      | alloc_begin p v hh k b =>
        simp only [begins, beq_eq_false_iff_ne]
        rintro rfl
        exact hnot v hh k b rfl
      | _ => rfl
    apply (h.jobs q c hc).after hnew
    · intro hdone
      rcases chan_done hsync ht hd hdone with ⟨c', hc', hcdone⟩ | ⟨r, rfl, happ, hflags⟩
      · cases hc.symm.trans hc'
        exact Or.inl hcdone
      · refine Or.inr ?_
        simp only [cause]
        rw [if_pos ⟨happ, hflags⟩]
        rintro ⟨⟩
    · intro hpc
      refine ⟨?_, by rintro ⟨⟩⟩
      by_cases hturn : turned a = some q
      · -- only the end of context_alloc leads to a place before the message
        rcases follow_turned (s := s.dom) hturn with ⟨rfl, _⟩ | hpark | hwait
        · have hok := h.dom.calls q c hc
          obtain ⟨e, rfl, he, hph, _⟩ := onCtx_at ht
          cases hc.symm.trans he
          rw [hok.fake (hok.made (Or.inr (by simpa using hph)))]
          rfl
        · have hpc : unsent ((follow s.dom a).waiter q).pc = true := hpc
          rw [hpark] at hpc
          cases hpc
        · have hpc : unsent ((follow s.dom a).waiter q).pc = true := hpc
          rw [hwait] at hpc
          cases hpc
      · rw [show (follow s.dom a).waiter q = _ from follow_waiter hturn hnot] at hpc
        exact hpc
    · intro hpc
      by_cases hturn : turned a = some q
      · have hpc : ((follow s.dom a).waiter q).pc = .out := hpc
        rcases follow_turned (s := s.dom) hturn with ⟨_, hready⟩ | hpark | hwait
        · rw [hready] at hpc
          cases hpc
        · rw [hpark] at hpc
          cases hpc
        · rw [hwait] at hpc
          cases hpc
      · rw [show (follow s.dom a).waiter q = _ from follow_waiter hturn hnot] at hpc
        exact Or.inl ⟨hpc, by rintro ⟨⟩, hg.done⟩

/-- A step that leaves the threads and the contexts alone. -/
theorem Inv.same {sh : WaitShared} {s : Jobs} (h : Inv sh s) {a : restart_waits.Act} {t : Domain}
    (ht : restart_waits.step sh s.dom a = some t) (hw : t.waiter = s.dom.waiter)
    (hchan : t.chan = s.dom.chan) (ha : ∀ q, begins q a = false ∧ a ≠ .sent q) :
    Inv sh (s.after sh a t) := by
  refine ⟨restart_waits.step_inv sh s.dom a t h.dom ht, fun q d hd => ?_⟩
  have hd : t.chan.ctx q = some d := hd
  rw [hchan] at hd
  apply (h.jobs q d hd).after (ha q).1 Or.inl
  · rw [hw]
    exact fun hpc => ⟨hpc, (ha q).2⟩
  · rw [hw]
    exact fun hpc => Or.inl ⟨hpc, (ha q).2, id⟩

/-- A step of a thread. -/
theorem jobs_thread {sh : WaitShared} {s : Jobs} {a : restart_waits.Act} {t : Domain} {p : Nat}
    (h : Inv sh s) (ha : thread a = some p) (ht : restart_waits.step sh s.dom a = some t) {q : Nat}
    {d : InvokeCtx} (hd : t.chan.ctx q = some d) : JobOk sh (s.after sh a t) q d := by
  have hnew : begins q a = false := by
    cases a with
    | ctx a => cases ha
    | _ => rfl
  obtain ⟨c, o, hc, htold, rfl⟩ := told_step ha ht
  by_cases hq : q = p
  · subst hq
    rw [ctx_put_self hc htold.ptr] at hd
    cases hd
    apply (h.jobs q c hc).after hnew htold.done
    · rw [show (s.dom.put q o).waiter q = o.1 from waiter_setWaiter_self _ _ _]
      exact htold.early
    · rw [show (s.dom.put q o).waiter q = o.1 from waiter_setWaiter_self _ _ _]
      exact fun hpc => Or.inr (htold.out hpc)
  · rw [ctx_put_ne hc htold.ptr hq] at hd
    have hother : a ≠ .sent q := by
      rintro rfl
      exact hq (Option.some.inj ha)
    apply (h.jobs q d hd).after hnew Or.inl
    · rw [show (s.dom.put p o).waiter q = _ from waiter_setWaiter_ne _ _ hq]
      exact fun hpc => ⟨hpc, hother⟩
    · rw [show (s.dom.put p o).waiter q = _ from waiter_setWaiter_ne _ _ hq]
      exact fun hpc => Or.inl ⟨hpc, hother, id⟩

theorem step_inv (sh : WaitShared) (s : Jobs) (a : Act) (t : Jobs) (h : Inv sh s)
    (ht : step sh s a = some t) : Inv sh t := by
  cases a with
  | put_args p =>
    obtain ⟨_, ⟨⟩⟩ := Option.ite_none_right_eq_some.mp ht
    exact ⟨h.dom,
      fun q c hc => ⟨(h.jobs q c hc).caused, (h.jobs q c hc).early, (h.jobs q c hc).out⟩⟩
  | dom a =>
    obtain ⟨_, ht⟩ := Option.ite_none_right_eq_some.mp ht
    obtain ⟨d, hd, rfl⟩ := Option.map_eq_some_iff.mp ht
    have hdom := restart_waits.step_inv sh s.dom a d h.dom hd
    cases a with
    | open_session v =>
      obtain ⟨_, ⟨⟩⟩ := Option.ite_none_left_eq_some.mp hd
      exact h.same hd rfl rfl (fun _ => ⟨rfl, by rintro ⟨⟩⟩)
    | get_info v =>
      obtain ⟨_, ⟨⟩⟩ := Option.ite_none_right_eq_some.mp hd
      exact h.same hd rfl rfl (fun _ => ⟨rfl, by rintro ⟨⟩⟩)
    | channel_open v =>
      refine h.same hd ?_ ?_ (fun _ => ⟨rfl, by rintro ⟨⟩⟩)
      all_goals
        simp only [restart_waits.step] at hd
        split at hd <;> cases hd <;> rfl
    | file_free v =>
      obtain ⟨_, ⟨⟩⟩ := Option.ite_none_left_eq_some.mp hd
      exact h.same hd rfl rfl (fun _ => ⟨rfl, by rintro ⟨⟩⟩)
    | ctx a =>
      simp only [restart_waits.step] at hd
      obtain ⟨hmay, hd⟩ := Option.ite_none_right_eq_some.mp hd
      obtain ⟨u, hu, rfl⟩ := Option.map_eq_some_iff.mp hd
      exact ⟨hdom, fun q e he => jobs_ctx h hmay hu he⟩
    | notifier =>
      obtain ⟨hw, hchan⟩ := @notifier_done sh _ _ hd
      refine ⟨hdom, fun q e he => ?_⟩
      obtain ⟨c, hc, hkeep, hdone⟩ := hchan q e he
      apply (h.jobs q c hc).after rfl hdone
      · rw [hw]
        exact fun hpc => ⟨hpc, by rintro ⟨⟩⟩
      · rw [hw]
        exact fun hpc => Or.inl ⟨hpc, by rintro ⟨⟩, hkeep⟩
    | _ => exact ⟨hdom, fun q e he => jobs_thread h rfl hd he⟩

/-! ## The law -/

/-- A call whose message is sent copies its results only when its job is done, and has a cause for
it. It frees its context only then, or when the waiting loop has found flags that it does not
know. As long as neither is so, its thread stays in the loop or leaves it by a signal. -/
theorem a_sent_job_keeps_its_buffers (sh : WaitShared) (s t : Jobs) (p : Nat)
    (hr : Reachable (step sh) Jobs.init s) (hs : s.sent p = true) :
    (step sh s (.put_args p) = some t →
      ∃ c, s.dom.chan.ctx p = some c ∧ c.is_work_done = true ∧ s.causes p ≠ []) ∧
    (step sh s (.dom (.ctx (.free p))) = some t → ∃ c, s.dom.chan.ctx p = some c ∧
      (c.is_work_done = true ∧ s.causes p ≠ [] ∨ ∃ f, s.refused p = some f ∧
        supported sh f = false)) ∧
    ∀ c, s.dom.chan.ctx p = some c → c.is_work_done = false → s.refused p = none →
      (s.dom.waiter p).pc ≠ .out := by
  have hinv : Inv sh s := hr.inv (Inv sh) (step_inv sh) (inv_init sh)
  refine ⟨fun ht => ?_, fun ht => ?_, fun c hc hno hrefused hpc => ?_⟩
  · obtain ⟨hgo, _⟩ := Option.ite_none_right_eq_some.mp ht
    have hputs := hgo.2.1
    simp only [Jobs.puts, Bool.and_eq_true, Option.any_eq_true] at hputs
    obtain ⟨_, c, hc, hdone⟩ := hputs
    exact ⟨c, hc, hdone, (hinv.jobs p c hc).caused hdone⟩
  · obtain ⟨_, ht⟩ := Option.ite_none_right_eq_some.mp ht
    obtain ⟨d, hd, _⟩ := Option.map_eq_some_iff.mp ht
    simp only [restart_waits.step] at hd
    obtain ⟨hmay, hd⟩ := Option.ite_none_right_eq_some.mp hd
    obtain ⟨u, hu, _⟩ := Option.map_eq_some_iff.mp hd
    obtain ⟨c, rfl, hc, _⟩ := onCtx_at hu
    have hpc : (s.dom.waiter c.ptr).pc = .out := by simpa [mayTake] using hmay
    have hok := hinv.jobs c.ptr c hc
    refine ⟨c, hc, (hok.out hpc hs).imp_left fun hdone => ?_⟩
    exact ⟨hdone, hok.caused hdone⟩
  · rcases (hinv.jobs p c hc).out hpc hs with hdone | ⟨f, hf, _⟩
    · rw [hno] at hdone
      cases hdone
    · rw [hrefused] at hf
      cases hf

/-- A call up to the switch of the waiting loop. -/
def sentCall : List Act :=
  [.dom (.open_session 0), .dom (.get_info 0), .dom (.channel_open 0),
    .dom (.ctx (.alloc_begin 7 0 30 false false)), .dom (.ctx (.alloc_entry 7)),
    .dom (.ctx (.alloc_list 7)), .dom (.check 7), .dom (.sent 7), .dom (.enter 7 false)]

/-- A response to this call. -/
def answer (flags : BitVec 32) : Act :=
  .dom (.ctx (.response ⟨24, 135552, 0, flags, 0, 2, 0, 0, 0⟩))

/-- A call that is answered goes through put_args, and then frees its context. -/
theorem an_answered_call_copies_its_results :
    ∃ s, run (step ⟨sampleShared, 4⟩) Jobs.init
        (sentCall ++ [answer 0, .dom (.turn 7), .dom (.turn 7), .dom (.turn 7)]) = some s ∧
      ∃ c, s.dom.chan.ctx 7 = some c ∧ c.is_work_done = true ∧ s.causes 7 ≠ [] := by
  refine ⟨_, rfl, ?_⟩
  exact (a_sent_job_keeps_its_buffers ⟨sampleShared, 4⟩ _ _ 7 ⟨sentCall ++
    [answer 0, .dom (.turn 7), .dom (.turn 7), .dom (.turn 7)], rfl⟩ rfl).1 rfl

/-- Flags that no case of the switch knows end the wait, and the call frees the buffers of a job
that is still running. -/
theorem unknown_flags_free_a_running_job :
    ∃ s t c, run (step ⟨sampleShared, 4⟩) Jobs.init
      (sentCall ++ [answer 99, .dom (.turn 7)]) = some s ∧
      s.sent 7 = true ∧ step ⟨sampleShared, 4⟩ s (.dom (.ctx (.free 7))) = some t ∧
      s.dom.chan.ctx 7 = some c ∧ c.is_work_done = false ∧ s.causes 7 = [] :=
  ⟨_, _, _, rfl, rfl, rfl, rfl, rfl, rfl⟩

end virtual_fastrpc.sent_jobs
