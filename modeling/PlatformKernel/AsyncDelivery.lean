-- What becomes of the responses to asynchronous invokes. The queue says that no job is
-- collected twice; here, that none is lost on the way to a collector, and that no
-- collector sleeps beside one.
import PlatformKernel.AsyncQueue

namespace virtual_fastrpc.async_jobs

open step_runs hlist

/-- A context that is on the queue of the completed jobs. -/
def Queued (s : Session) (j : Nat) : Prop := ∃ l, Holds s.async_queue l ∧ j ∈ l

/-- The condition: a response is for a message that is filled, and comes, as each context_free,
when the context is not on the queue. -/
def Answers (s : Session) (a : Act) : Prop :=
  NotQueued s a ∧ ∀ i, a = .recv i → ∀ m, s.msgtable i = some m → m.job.isSome → m.ctx = true

/-- Each job with a response is on the queue until a collector takes it, and with that collector
until it is freed. -/
structure Delivered (s : Session) : Prop where
  unhashed : ∀ j x, s.jobs j = some x → hlist_unhashed s.async_queue j = true → 0 < x.handed
  held : ∀ j x, s.jobs j = some x → 0 < x.handed → x.freed = false →
    ∃ c, s.collectors c = .holding j
  answered : ∀ i m j, s.msgtable i = some m → m.job = some j → m.rxbuf = true →
    (∀ x, s.jobs j = some x → 0 < x.handed) ∨ Queued s j

theorem delivered_init : Delivered Session.init where
  unhashed := nofun
  held := nofun
  answered := nofun

variable {tracing : Bool} {s t : Session} {j : Nat} {x : Job}

/-- A step that leaves the queue as it is, hands no job over and lets no collector go but with
the end of its job. -/
theorem Delivered.keep (h : Delivered s) (hqueue : t.async_queue = s.async_queue)
    (hjobs : ∀ k y, t.jobs k = some y → ∃ x, s.jobs k = some x ∧ y.handed = x.handed ∧
      (y.freed = false → x.freed = false))
    (hmsgs : ∀ i m k, t.msgtable i = some m → m.job = some k → m.rxbuf = true →
      ∃ m', s.msgtable i = some m' ∧ m'.job = some k ∧ m'.rxbuf = true)
    (hcoll : ∀ c k, s.collectors c = .holding k →
      t.collectors c = .holding k ∨ ∀ y, t.jobs k = some y → y.freed = true) : Delivered t where
  unhashed := by
    intro k y hy hun
    obtain ⟨x, hx, hhanded, _⟩ := hjobs k y hy
    rw [hhanded]
    exact h.unhashed k x hx (hqueue ▸ hun)
  held := by
    intro k y hy hpos hfreed
    obtain ⟨x, hx, hhanded, hlive⟩ := hjobs k y hy
    obtain ⟨c, hc⟩ := h.held k x hx (hhanded ▸ hpos) (hlive hfreed)
    rcases hcoll c k hc with hc | hgone
    · exact ⟨c, hc⟩
    · exact absurd (hfreed.symm.trans (hgone y hy)) nofun
  answered := by
    intro i m k hm hk hrx
    obtain ⟨m', hm', hk', hrx'⟩ := hmsgs i m k hm hk hrx
    rcases h.answered i m' k hm' hk' hrx' with htaken | hon
    · left
      intro y hy
      obtain ⟨x, hx, hhanded, _⟩ := hjobs k y hy
      rw [hhanded]
      exact htaken x hx
    · right
      simpa only [Queued, hqueue] using hon

/-- A step that changes only what the laws do not look at. -/
theorem Delivered.of_eq (h : Delivered s) (hqueue : t.async_queue = s.async_queue)
    (hjobs : t.jobs = s.jobs) (htable : t.msgtable = s.msgtable)
    (hcoll : ∀ c k, s.collectors c = .holding k → t.collectors c = .holding k) : Delivered t := by
  apply h.keep hqueue
  · intro k y hy
    exact ⟨y, hjobs ▸ hy, rfl, id⟩
  · intro i m k hm hk hrx
    exact ⟨m, htable ▸ hm, hk, hrx⟩
  · intro c k hc
    exact Or.inl (hcoll c k hc)

/-- A collector that holds no job goes on. -/
theorem Delivered.move (h : Delivered s) {c : Nat} {p : Collector}
    (hc : ∀ k, s.collectors c ≠ .holding k) : Delivered (s.setCollector c p) := by
  refine h.of_eq rfl rfl rfl ?_
  intro d k hd
  have hne : d ≠ c := by
    rintro rfl
    exact hc k hd
  simpa [Session.setCollector, hne] using hd

/-- One job moves on and keeps its place. -/
theorem jobs_of_update {y : Job} (hx : s.jobs j = some x)
    (hjobs : t.jobs = Function.update s.jobs j (some y)) (hhanded : y.handed = x.handed)
    (hfreed : y.freed = false → x.freed = false) (k : Nat) (z : Job) (hz : t.jobs k = some z) :
    ∃ w, s.jobs k = some w ∧ z.handed = w.handed ∧ (z.freed = false → w.freed = false) := by
  rw [hjobs] at hz
  rcases update_some hz with ⟨rfl, rfl⟩ | ⟨_, hz⟩
  · exact ⟨x, hx, hhanded, hfreed⟩
  · exact ⟨z, hz, rfl, id⟩

/-- A context that is freed and not on the queue. -/
theorem Delivered.free (h : Delivered s) (hx : s.jobs j = some x) :
    Delivered (context_free s j) := by
  refine h.keep rfl (jobs_of_update hx (alterJob_jobs hx _) rfl nofun) ?_ (fun _ _ hc => .inl hc)
  intro i m k hm hk hrx
  refine ⟨m, ?_, hk, hrx⟩
  simp only [context_free, hx, Option.bind_some] at hm
  rcases hxm : x.msg with _ | i'
  · simpa [freeMsg, hxm] using hm
  · by_cases hi : i = i'
    · subst hi
      simp [freeMsg, hxm] at hm
    · simpa [freeMsg, hxm, hi] using hm

/-- A new context has a node that counts as hashed. -/
theorem Delivered.alloc (h : Delivered s) (hs : Settled s) (hq : Tracked s) (handle : Nat) :
    Delivered (context_alloc s handle) := by
  have hknown : ∀ k z, s.jobs k = some z → k ≠ s.next := by
    intro k z hz he
    exact absurd (hs.known k z hz) (by omega)
  constructor
  case unhashed =>
    intro k z hz hun
    simp only [context_alloc, unhashed_add_fake, Bool.and_eq_true, decide_eq_true_eq] at hun
    rcases update_some hz with ⟨hk, _⟩ | ⟨_, hz⟩
    · exact absurd hk hun.2
    · exact h.unhashed k z hz hun.1
  case held =>
    intro k z hz hpos hfreed
    rcases update_some hz with ⟨_, rfl⟩ | ⟨_, hz⟩
    · exact absurd hpos (by simp [Job.new])
    · exact h.held k z hz hpos hfreed
  case answered =>
    intro i m k hm hk hrx
    obtain ⟨z, hz, _⟩ := hq.owner i m k hm hk
    have hne := hknown k z hz
    rcases h.answered i m k hm hk hrx with htaken | ⟨l, hl, hmem⟩
    · left
      intro x hx
      exact htaken x (by simpa [context_alloc, hne] using hx)
    · right
      obtain ⟨l', hl'⟩ := hq.queue
      have hnext : s.next ∉ l := by
        intro hmem
        rw [hl.unique hl'.holds] at hmem
        obtain ⟨w, _, _, hw, _⟩ := hl'.answered _ hmem
        exact hknown _ w hw rfl
      exact ⟨l, hl.add_fake hnext, hmem⟩

/-- The job has been taken by a collector, or it is on the queue. -/
def Safe (s : Session) (j : Nat) : Prop := (∀ x, s.jobs j = some x → 0 < x.handed) ∨ Queued s j

/-- What vfastrpc_queue_completed_async_job leaves out has been taken already. -/
theorem Delivered.queue_completed (h : Delivered s) (hq : Tracked s) (hj : Unlinked s j) :
    Delivered (vfastrpc_queue_completed_async_job s j) ∧
      Safe (vfastrpc_queue_completed_async_job s j) j := by
  unfold vfastrpc_queue_completed_async_job
  split
  · rename_i hun
    exact ⟨h, Or.inl (fun x hx => h.unhashed j x hx hun)⟩
  · obtain ⟨l, hl⟩ := hq.queue
    have hadd := hl.holds.add_head (hj.not_mem hl.holds)
    refine ⟨⟨?_, h.held, ?_⟩, Or.inr ⟨j :: l, hadd, List.mem_cons_self⟩⟩
    · intro k x hx hun
      simp only [unhashed_add_head hl.holds, Bool.and_eq_true] at hun
      exact h.unhashed k x hx hun.1
    · intro i m k hm hk hrx
      rcases h.answered i m k hm hk hrx with htaken | ⟨l', hl', hmem⟩
      · exact Or.inl htaken
      · cases hl'.unique hl.holds
        exact Or.inr ⟨j :: l, hadd, List.mem_cons_of_mem j hmem⟩

/-- A message gets a response, and its job is safe. -/
theorem Delivered.setMsg (h : Delivered s) {i : Nat} {m : Msg}
    (hsafe : ∀ k, m.job = some k → Safe s k) : Delivered (s.setMsg i (some m)) := by
  refine ⟨h.unhashed, h.held, ?_⟩
  intro i' m' k hm' hk hrx
  by_cases hi : i' = i
  · subst hi
    simp only [Session.setMsg, Function.update_self, Option.some.injEq] at hm'
    subst hm'
    exact hsafe k hk
  · exact h.answered i' m' k (by simpa [Session.setMsg, hi] using hm') hk hrx

theorem Delivered.recv (h : Delivered s) (hq : Tracked s) (i : Nat) (hc : Answers s (.recv i)) :
    Delivered (recv_single s i) := by
  unfold recv_single
  rcases hm : s.msgtable i with _ | ⟨_ | j, ctx, rx⟩
  · exact h
  · exact h.setMsg (fun k hk => by cases hk)
  · have hctx : ctx = true := hc.2 i rfl _ hm rfl
    subst hctx
    obtain ⟨hdone, hsafe⟩ := h.queue_completed hq (hc.1 _ j hm rfl rfl)
    -- the callback writes the message first, and then the queue
    have hcomm : vfastrpc_queue_completed_async_job (s.setMsg i (some ⟨some j, true, true⟩)) j =
        (vfastrpc_queue_completed_async_job s j).setMsg i (some ⟨some j, true, true⟩) := by
      by_cases hun : hlist_unhashed s.async_queue j = true <;>
        simp [vfastrpc_queue_completed_async_job, Session.setMsg, hun]
    simp only [if_true, hcomm]
    apply hdone.setMsg
    intro k hk
    cases hk
    exact hsafe

/-- The collector has the job that it takes off the queue. -/
theorem Delivered.take (h : Delivered s) (hq : Tracked s) {c : Nat}
    (hc : s.collectors c = .woken) : Delivered (take_first s c) := by
  obtain ⟨l, hl⟩ := hq.queue
  unfold take_first
  rw [hl.holds.first]
  have hother : ∀ k d, s.collectors d = .holding k → d ≠ c := by
    rintro k d hd rfl
    cases hc.symm.trans hd
  cases l with
  | nil =>
    refine h.keep rfl (fun k y hy => ⟨y, hy, rfl, id⟩) (fun i m k hm hk hrx => ⟨m, hm, hk, hrx⟩) ?_
    intro d k hd
    left
    simpa [Session.setCollector, hother k d hd] using hd
  | cons j l =>
    obtain ⟨x, i, m, hx, hfreed, hmsg, hm, hrx⟩ := hl.answered j List.mem_cons_self
    have hjobs := alterJob_jobs hx (fun x => { x with handed := x.handed + 1 })
    constructor
    case unhashed =>
      intro k z hz hun
      rcases update_some (hjobs ▸ hz) with ⟨_, rfl⟩ | ⟨hk, hz⟩
      · exact Nat.succ_pos _
      · have hun : hlist_unhashed (hlist_del_init s.async_queue j) k = true := hun
        rw [unhashed_del_first hl.holds] at hun
        exact h.unhashed k z hz (by simpa [hk] using hun)
    case held =>
      intro k z hz hpos hlive
      rcases update_some (hjobs ▸ hz) with ⟨rfl, _⟩ | ⟨_, hz⟩
      · exact ⟨c, by simp [Session.setCollector, Session.alterJob]⟩
      · obtain ⟨d, hd⟩ := h.held k z hz hpos hlive
        exact ⟨d, by simpa [Session.setCollector, Session.alterJob, hother k d hd] using hd⟩
    case answered =>
      intro i' m' k hm' hk hrx'
      by_cases hkj : k = j
      · subst hkj
        left
        intro z hz
        rcases update_some (hjobs ▸ hz) with ⟨_, rfl⟩ | ⟨hk, _⟩
        · exact Nat.succ_pos _
        · exact absurd rfl hk
      · rcases h.answered i' m' k hm' hk hrx' with htaken | ⟨l', hl', hmem⟩
        · left
          intro z hz
          rcases update_some (hjobs ▸ hz) with ⟨hk, _⟩ | ⟨_, hz⟩
          · exact absurd hk hkj
          · exact htaken z hz
        · cases hl'.unique hl.holds
          exact Or.inr ⟨l, hl.holds.del_first, (List.mem_cons.mp hmem).resolve_left hkj⟩

theorem delivered_step (s : Session) (a : Act) (t : Session) (hs : Settled s) (hq : Tracked s)
    (h : Delivered s) (hc : Answers s a) (ht : step tracing s a = some t) : Delivered t := by
  cases a with
  | set_profile =>
    cases ht
    exact h.of_eq rfl rfl rfl (fun _ _ => id)
  | alloc handle =>
    obtain ⟨_, ht⟩ := Option.ite_none_right_eq_some.mp ht
    cases ht
    exact h.alloc hs hq handle
  | turn j ok =>
    obtain ⟨x, hx, ht⟩ := onJob_some ht
    obtain ⟨⟨acc, y⟩, hturn, rfl⟩ := Option.map_eq_some_iff.mp ht
    obtain ⟨hfreed, _, hhanded, _⟩ := turn_keeps hturn
    exact h.keep rfl (jobs_of_update hx rfl hhanded (fun hy => hfreed ▸ hy))
      (fun i m k hm hk hrx => ⟨m, hm, hk, hrx⟩) (fun _ _ hc => Or.inl hc)
  | msg_alloc j i =>
    obtain ⟨x, hx, ht⟩ := onJob_some ht
    obtain ⟨_, ht⟩ := Option.ite_none_right_eq_some.mp ht
    cases ht
    refine h.keep rfl (jobs_of_update hx rfl rfl id) ?_ (fun _ _ hc => Or.inl hc)
    intro i' m k hm hk hrx
    by_cases hi : i' = i
    · subst hi
      simp only [Session.setMsg, Function.update_self, Option.some.injEq] at hm
      subst hm
      cases hrx
    · exact ⟨m, by simpa [Session.setMsg, Session.setJob, Session.access, hi] using hm, hk, hrx⟩
  | msg_ctx j =>
    obtain ⟨x, hx, ht⟩ := onJob_some ht
    obtain ⟨_, ht⟩ := Option.ite_none_right_eq_some.mp ht
    rcases hm : x.msg with _ | i
    · simp [hm] at ht
    · simp only [hm, Option.some.injEq] at ht
      subst ht
      refine h.keep rfl (jobs_of_update hx rfl rfl id) ?_ (fun _ _ hc => Or.inl hc)
      intro i' m' k hm' hk hrx
      by_cases hi : i' = i
      · subst hi
        simp only [Session.setMsg, Function.update_self] at hm'
        obtain ⟨m, hm, rfl⟩ := Option.map_eq_some_iff.mp hm'
        exact ⟨m, hm, hk, hrx⟩
      · exact ⟨m', by simpa [Session.setMsg, Session.setJob, Session.access, hi] using hm', hk,
          hrx⟩
  | bail j =>
    obtain ⟨x, hx, ht⟩ := onJob_some ht
    obtain ⟨_, ht⟩ := Option.ite_none_right_eq_some.mp ht
    cases ht
    have hmid : Delivered ((s.access true x).setJob j { x with pc := .invoke_end }) :=
      h.keep rfl (jobs_of_update hx rfl rfl id) (fun i m k hm hk hrx => ⟨m, hm, hk, hrx⟩)
        (fun _ _ hc => Or.inl hc)
    exact hmid.free (Function.update_self ..)
  | other_msg_alloc i =>
    obtain ⟨_, ht⟩ := Option.ite_none_right_eq_some.mp ht
    cases ht
    exact h.setMsg (fun k hk => by cases hk)
  | other_msg_free i =>
    obtain ⟨m, _, ht⟩ := Option.bind_eq_some_iff.mp ht
    obtain ⟨_, ht⟩ := Option.ite_none_right_eq_some.mp ht
    cases ht
    refine h.keep rfl (fun k y hy => ⟨y, hy, rfl, id⟩) ?_ (fun _ _ hc => Or.inl hc)
    intro i' m' k hm' hk hrx
    by_cases hi : i' = i
    · subst hi
      simp [Session.setMsg] at hm'
    · exact ⟨m', by simpa [Session.setMsg, hi] using hm', hk, hrx⟩
  | recv i =>
    cases ht
    exact h.recv hq i hc
  | come c =>
    obtain ⟨⟨_, hout⟩, ht⟩ := Option.ite_none_right_eq_some.mp ht
    cases ht
    have hmove : Delivered (s.setCollector c .waiting) := h.move (by simp [hout])
    exact hmove.of_eq rfl rfl rfl (fun _ _ => id)
  | wake c =>
    obtain ⟨⟨hwaiting, _⟩, ht⟩ := Option.ite_none_right_eq_some.mp ht
    cases ht
    exact h.move (by simp [hwaiting])
  | interrupt c =>
    obtain ⟨hwaiting, ht⟩ := Option.ite_none_right_eq_some.mp ht
    cases ht
    exact h.move (by simp [hwaiting])
  | take c =>
    obtain ⟨hwoken, ht⟩ := Option.ite_none_right_eq_some.mp ht
    cases ht
    exact h.take hq hwoken
  | collect c =>
    simp only [step] at ht
    split at ht
    · rename_i j hj
      cases ht
      obtain ⟨x, hx, _⟩ := hq.holding c j hj
      refine (h.free hx).keep rfl (fun k y hy => ⟨y, hy, rfl, id⟩)
        (fun i m k hm hk hrx => ⟨m, hm, hk, hrx⟩) ?_
      intro d k hd
      by_cases hdc : d = c
      · subst hdc
        right
        intro y hy
        have hkj : k = j := Collector.holding.inj (hd.symm.trans hj)
        subst hkj
        have hfree := alterJob_jobs hx Job.free
        rcases update_some (hfree ▸ hy) with ⟨_, rfl⟩ | ⟨hk, _⟩
        · rfl
        · exact absurd rfl hk
      · left
        simpa [Session.setCollector, hdc] using hd
    · cases ht
  | close =>
    obtain ⟨_, ht⟩ := Option.ite_none_right_eq_some.mp ht
    cases ht
    exact h.of_eq rfl rfl rfl (fun _ _ => id)
  | close_wake =>
    obtain ⟨_, ht⟩ := Option.ite_none_right_eq_some.mp ht
    cases ht
    exact h.of_eq rfl rfl rfl (fun _ _ => id)
  | close_free j =>
    obtain ⟨x, hx, ht⟩ := onJob_some ht
    obtain ⟨_, ht⟩ := Option.ite_none_right_eq_some.mp ht
    cases ht
    exact h.free hx

/-- A collector that is awake takes a job of the queue, or waits again when there is none. -/
theorem take_holding (hq : Tracked s) {c : Nat} :
    (∃ j, Queued s j ∧ (take_first s c).collectors c = .holding j) ∨
      (∀ j, ¬ Queued s j) ∧ (take_first s c).collectors c = .waiting := by
  obtain ⟨l, hl⟩ := hq.queue
  unfold take_first
  rw [hl.holds.first]
  cases l with
  | nil =>
    right
    refine ⟨?_, by simp [Session.setCollector]⟩
    rintro j ⟨l, hl', hmem⟩
    cases hl'.unique hl.holds
    cases hmem
  | cons j l =>
    left
    refine ⟨j, ⟨j :: l, hl.holds, List.mem_cons_self⟩, ?_⟩
    simp [Session.setCollector, Session.alterJob]

/-- Whenever responses come for filled messages only, and none comes for a context that is on the
queue, nor is such a context freed: each job with a response is on the queue, or a collector has
it; as long as the file is open, a collector that waits can go on exactly when the queue has a job;
and one that is awake takes a job of the queue, unless others were faster. -/
theorem no_answered_job_is_lost (tracing : Bool) {as : List Act} {s : Session}
    (hm : Meets (step tracing) Answers Session.init as)
    (hr : run (step tracing) Session.init as = some s) :
    (∀ i m j, s.msgtable i = some m → m.job = some j → m.rxbuf = true →
      Queued s j ∨ ∃ c, s.collectors c = .holding j) ∧
    (s.stage = .open_ → ∀ c, s.collectors c = .waiting → ((∃ t, step tracing s (.wake c) = some t) ↔
      ∃ j, Queued s j)) ∧
    (∀ c t, step tracing s (.take c) = some t → (∃ j, Queued s j ∧ t.collectors c = .holding j) ∨
      (∀ j, ¬ Queued s j) ∧ t.collectors c = .waiting) := by
  have h := run_inv_of_meets (fun s => Settled s ∧ Tracked s ∧ Delivered s)
    (fun s a t h hc ht => ⟨settled_step s a t h.1 ht, tracked_step s a t h.1 h.2.1 hc.1 ht,
      delivered_step s a t h.1 h.2.1 h.2.2 hc ht⟩)
    ⟨settled_init, tracked_init, delivered_init⟩ hm hr
  obtain ⟨_, hq, hd⟩ := h
  obtain ⟨l, hl⟩ := hq.queue
  refine ⟨?_, ?_, ?_⟩
  · intro i m j hi hj hrx
    obtain ⟨x, hx, hlive, _⟩ := hq.owner i m j hi hj
    rcases hd.answered i m j hi hj hrx with htaken | hon
    · exact Or.inr (hd.held j x hx (htaken x hx) hlive)
    · exact Or.inl hon
  · intro hopen c hc
    have hcount := hl.count hopen
    simp only [step, hc, true_and, hcount]
    constructor
    · rintro ⟨t, ht⟩
      have hlength := (Option.ite_none_right_eq_some.mp ht).1
      cases l with
      | nil => simp at hlength
      | cons j l => exact ⟨j, j :: l, hl.holds, List.mem_cons_self⟩
    · rintro ⟨j, l', hl', hmem⟩
      cases hl'.unique hl.holds
      have hpos : (l.length : Int) ≠ 0 := by
        have := List.length_pos_of_mem hmem
        omega
      exact ⟨_, if_pos hpos⟩
  · intro c t ht
    obtain ⟨_, ht⟩ := Option.ite_none_right_eq_some.mp ht
    cases ht
    exact take_holding hq

/-- A collector sleeps while a job is issued and answered. -/
def answeredBesideSleeper : List Act := .come 0 :: (issued ++ [.recv 7])

theorem the_sleeper_can_wake_up :
    ∃ s, run (step false) Session.init answeredBesideSleeper = some s ∧
      ∃ t, step false s (.wake 0) = some t := by
  obtain ⟨s, hrun⟩ : ∃ s, run (step false) Session.init answeredBesideSleeper = some s := ⟨_, rfl⟩
  have hmeets : Meets (step false) Answers Session.init answeredBesideSleeper := by
    refine Meets.cons ?_ rfl (Meets.append (meets_of_forall ?_ _) rfl (Meets.cons ?_ rfl trivial))
    · simp [Answers, NotQueued]
    · simp [issued, Answers, NotQueued]
    · refine ⟨?_, ?_⟩
      · rintro m j ⟨⟩ ⟨⟩ _
        exact Or.inr rfl
      · rintro i ⟨⟩ m ⟨⟩ _
        rfl
  obtain ⟨hanswered, hwake, _⟩ := no_answered_job_is_lost false hmeets hrun
  refine ⟨s, hrun, ?_⟩
  cases hrun
  apply (hwake rfl 0 rfl).mpr
  rcases hanswered 7 ⟨some 0, true, true⟩ 0 rfl rfl rfl with hqueued | ⟨c, hc⟩
  · exact ⟨0, hqueued⟩
  · have hc : Function.update (fun _ => Collector.out) 0 Collector.waiting c = .holding 0 := hc
    by_cases h0 : c = 0 <;> simp [h0] at hc

end virtual_fastrpc.async_jobs
