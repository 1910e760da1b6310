-- The queue of the completed jobs of a session. A context comes on it when the
-- receive callback finds its node hashed, and the node is hashed from the
-- start; a collector takes the node off and leaves it unhashed.
import PlatformKernel.AsyncJobs

namespace virtual_fastrpc.async_jobs

open step_runs hlist

/-! ## What the queue holds -/

/-- The context of the job is live, and its message has a response. -/
def Answered (s : Session) (j : Nat) : Prop :=
  ∃ x i m, s.jobs j = some x ∧ x.freed = false ∧ x.msg = some i ∧ s.msgtable i = some m ∧
    m.rxbuf = true

/-- The nodes of `l` are on the queue, once each, with answered contexts, and their number is
the job count as long as the file is not released. -/
structure OnQueue (s : Session) (l : List Nat) : Prop where
  holds : Holds s.async_queue l
  answered : ∀ j ∈ l, Answered s j
  count : s.stage = .open_ → s.async_queue_job_count = l.length

/-- The law of the queue. -/
def QueuedOnce (s : Session) : Prop :=
  (∃ l, OnQueue s l) ∧ ∀ j x, s.jobs j = some x → x.handed ≤ 1

/-- The node of the job is on no list: it is unhashed, or still the fake it was made. -/
def Unlinked (s : Session) (j : Nat) : Prop :=
  hlist_unhashed s.async_queue j = true ∨ hlist_fake s.async_queue j = true

/-- The condition: a response for an asynchronous job comes when its context is not on the
queue, and so does a context_free by the issuing thread or by the release of the file. -/
def NotQueued (s : Session) : Act → Prop
  | .recv i => ∀ m j, s.msgtable i = some m → m.job = some j → m.ctx = true → Unlinked s j
  | .bail j => Unlinked s j
  | .close_free j => Unlinked s j
  | _ => True

/-- Each message of a job and the job point to each other, a job whose message is not there
yet is new, and a job that a collector has got is unhashed. -/
structure Tracked (s : Session) : Prop where
  owner : ∀ i m j, s.msgtable i = some m → m.job = some j →
    ∃ x, s.jobs j = some x ∧ x.freed = false ∧ x.msg = some i
  message : ∀ j x i, s.jobs j = some x → x.msg = some i →
    ∃ m, s.msgtable i = some m ∧ m.job = some j
  early : ∀ j x, s.jobs j = some x → x.pc = .counter ∨ x.pc = .mapping →
    x.freed = false ∧ x.msg = none ∧ x.handed = 0
  handed : ∀ j x, s.jobs j = some x → x.handed ≤ 1 ∧
    (0 < x.handed → hlist_unhashed s.async_queue j = true)
  holding : ∀ c j, s.collectors c = .holding j → ∃ x, s.jobs j = some x ∧ 0 < x.handed
  queue : ∃ l, OnQueue s l

theorem tracked_init : Tracked Session.init where
  owner := nofun
  message := nofun
  early := nofun
  handed := nofun
  holding := nofun
  queue := ⟨[], holds_init, nofun, fun _ => rfl⟩

variable {tracing : Bool} {s t : Session} {j : Nat} {x : Job}

theorem Unlinked.not_mem (h : Unlinked s j) {l : List Nat} (hl : Holds s.async_queue l) :
    j ∉ l := by
  intro hj
  obtain ⟨hhashed, hfake⟩ := hl.linked j hj
  rcases h with h | h
  · exact absurd (hhashed.symm.trans h) nofun
  · exact absurd (hfake.symm.trans h) nofun

/-! ## The steps of the issuing thread -/

/-- A step of the thread that leaves the context and the rest of the session as they are. -/
theorem Tracked.of_thread (h : Tracked s) {y : Job} (hx : s.jobs j = some x)
    (hjobs : t.jobs = Function.update s.jobs j (some y)) (hfreed : y.freed = x.freed)
    (hmsg : y.msg = x.msg) (hhanded : y.handed = x.handed)
    (hearly : y.pc = .counter ∨ y.pc = .mapping → x.pc = .counter ∨ x.pc = .mapping)
    (htable : t.msgtable = s.msgtable) (hqueue : t.async_queue = s.async_queue)
    (hcount : t.async_queue_job_count = s.async_queue_job_count) (hstage : t.stage = s.stage)
    (hcoll : t.collectors = s.collectors) : Tracked t := by
  have hback : ∀ k z, t.jobs k = some z → ∃ w, s.jobs k = some w ∧ z.freed = w.freed ∧
      z.msg = w.msg ∧ z.handed = w.handed ∧
      (z.pc = .counter ∨ z.pc = .mapping → w.pc = .counter ∨ w.pc = .mapping) := by
    intro k z hz
    rw [hjobs] at hz
    rcases update_some hz with ⟨rfl, rfl⟩ | ⟨_, hz⟩
    · exact ⟨x, hx, hfreed, hmsg, hhanded, hearly⟩
    · exact ⟨z, hz, rfl, rfl, rfl, id⟩
  have hforth : ∀ k w, s.jobs k = some w → ∃ z, t.jobs k = some z ∧ z.freed = w.freed ∧
      z.msg = w.msg ∧ z.handed = w.handed := by
    intro k w hw
    by_cases hk : k = j
    · subst hk
      cases hx.symm.trans hw
      exact ⟨y, by simp [hjobs], hfreed, hmsg, hhanded⟩
    · exact ⟨w, by simp [hjobs, hk, hw], rfl, rfl, rfl⟩
  constructor
  case owner =>
    intro i m k hm hk
    rw [htable] at hm
    obtain ⟨w, hw, hf, hi⟩ := h.owner i m k hm hk
    obtain ⟨z, hz, hzf, hzm, _⟩ := hforth k w hw
    exact ⟨z, hz, hzf.trans hf, hzm.trans hi⟩
  case message =>
    intro k z i hz hi
    obtain ⟨w, hw, _, hwm, _⟩ := hback k z hz
    rw [htable]
    exact h.message k w i hw (hwm.symm.trans hi)
  case early =>
    intro k z hz hpc
    obtain ⟨w, hw, hwf, hwm, hwh, hwpc⟩ := hback k z hz
    rw [hwf, hwm, hwh]
    exact h.early k w hw (hwpc hpc)
  case handed =>
    intro k z hz
    obtain ⟨w, hw, _, _, hwh, _⟩ := hback k z hz
    rw [hwh, hqueue]
    exact h.handed k w hw
  case holding =>
    intro c k hc
    rw [hcoll] at hc
    obtain ⟨w, hw, hpos⟩ := h.holding c k hc
    obtain ⟨z, hz, _, _, hzh⟩ := hforth k w hw
    exact ⟨z, hz, hzh ▸ hpos⟩
  case queue =>
    obtain ⟨l, hl⟩ := h.queue
    refine ⟨l, hqueue ▸ hl.holds, ?_, by rw [hstage, hcount]; exact hl.count⟩
    intro k hk
    obtain ⟨w, i, m, hw, hf, hi, hm, hrx⟩ := hl.answered k hk
    obtain ⟨z, hz, hzf, hzm, _⟩ := hforth k w hw
    exact ⟨z, i, m, hz, hzf.trans hf, hzm.trans hi, htable ▸ hm, hrx⟩

/-- The message gets its slot of the table. -/
theorem Tracked.msg_alloc (h : Tracked s) {i : Nat} (hx : s.jobs j = some x) (hpc : x.pc = .mapping)
    (hi : s.msgtable i = none) :
    Tracked (((s.access true x).setJob j { x with pc := .alloced, msg := some i }).setMsg i
      (some { job := some j, ctx := false, rxbuf := false })) := by
  obtain ⟨hfreed, hmsg, hhanded⟩ := h.early j x hx (Or.inr hpc)
  -- no other job has the slot, for it is free
  have hother : ∀ k z, s.jobs k = some z → z.msg ≠ some i := by
    intro k z hz hzi
    obtain ⟨m, hm, _⟩ := h.message k z i hz hzi
    cases hi.symm.trans hm
  constructor
  case owner =>
    intro i' m k hm hk
    by_cases hii : i' = i
    · subst hii
      simp [Session.setMsg] at hm
      subst hm
      cases hk
      exact ⟨{ x with pc := .alloced, msg := some i' }, by simp [Session.setMsg, Session.setJob],
        hfreed, rfl⟩
    · simp [Session.setMsg, hii] at hm
      obtain ⟨z, hz, hzf, hzi⟩ := h.owner i' m k hm hk
      have hkj : k ≠ j := by
        rintro rfl
        cases hx.symm.trans hz
        cases hmsg.symm.trans hzi
      exact ⟨z, by simp [Session.setMsg, Session.setJob, hkj]; exact hz, hzf, hzi⟩
  case message =>
    intro k z i' hz hzi
    rcases update_some hz with ⟨rfl, rfl⟩ | ⟨_, hz⟩
    · cases hzi
      exact ⟨_, by simp [Session.setMsg]; rfl, rfl⟩
    · obtain ⟨m, hm, hmk⟩ := h.message k z i' hz hzi
      have hii : i' ≠ i := fun he => hother k z hz (he ▸ hzi)
      exact ⟨m, by simp [Session.setMsg, hii]; exact hm, hmk⟩
  case early =>
    intro k z hz hzpc
    rcases update_some hz with ⟨rfl, rfl⟩ | ⟨_, hz⟩
    · simp at hzpc
    · exact h.early k z hz hzpc
  case handed =>
    intro k z hz
    rcases update_some hz with ⟨rfl, rfl⟩ | ⟨_, hz⟩
    · exact h.handed k x hx
    · exact h.handed k z hz
  case holding =>
    intro c k hc
    obtain ⟨z, hz, hpos⟩ := h.holding c k hc
    have hkj : k ≠ j := by
      rintro rfl
      cases hx.symm.trans hz
      omega
    exact ⟨z, by simp [Session.setMsg, Session.setJob, hkj]; exact hz, hpos⟩
  case queue =>
    obtain ⟨l, hl⟩ := h.queue
    refine ⟨l, hl.holds, fun k hk => ?_, hl.count⟩
    obtain ⟨z, i', m, hz, hzf, hzi, hm, hrx⟩ := hl.answered k hk
    have hkj : k ≠ j := by
      rintro rfl
      cases hx.symm.trans hz
      cases hmsg.symm.trans hzi
    have hii : i' ≠ i := fun he => hother k z hz (he ▸ hzi)
    exact ⟨z, i', m, by simp [Session.setMsg, Session.setJob, hkj]; exact hz, hzf, hzi,
      by simp [Session.setMsg, hii]; exact hm, hrx⟩

/-- A message changes without a change of its job and without the loss of its response. -/
theorem Tracked.setMsg (h : Tracked s) {i : Nat} {m m' : Msg} (hm : s.msgtable i = some m)
    (hjob : m'.job = m.job) (hrx : m.rxbuf = true → m'.rxbuf = true) :
    Tracked (s.setMsg i (some m')) := by
  have hforth :
    ∀ i' n, s.msgtable i' = some n → ∃ n', (s.setMsg i (some m')).msgtable i' = some n' ∧
      n'.job = n.job ∧ (n.rxbuf = true → n'.rxbuf = true) := by
    intro i' n hn
    by_cases hii : i' = i
    · subst hii
      cases hm.symm.trans hn
      exact ⟨m', by simp [Session.setMsg], hjob, hrx⟩
    · exact ⟨n, by simp [Session.setMsg, hii, hn], rfl, id⟩
  constructor
  case owner =>
    intro i' n k hn hk
    by_cases hii : i' = i
    · subst hii
      simp [Session.setMsg] at hn
      subst hn
      exact h.owner i' m k hm (hjob.symm.trans hk)
    · exact h.owner i' n k (by simpa [Session.setMsg, hii] using hn) hk
  case message =>
    intro k z i' hz hzi
    obtain ⟨n, hn, hnk⟩ := h.message k z i' hz hzi
    obtain ⟨n', hn', hjob', _⟩ := hforth i' n hn
    exact ⟨n', hn', hjob'.trans hnk⟩
  case early => exact h.early
  case handed => exact h.handed
  case holding => exact h.holding
  case queue =>
    obtain ⟨l, hl⟩ := h.queue
    refine ⟨l, hl.holds, fun k hk => ?_, hl.count⟩
    obtain ⟨z, i', n, hz, hzf, hzi, hn, hnrx⟩ := hl.answered k hk
    obtain ⟨n', hn', _, hrx'⟩ := hforth i' n hn
    exact ⟨z, i', n', hz, hzf, hzi, hn', hrx' hnrx⟩

/-- context_free on a context that is not on the queue. -/
theorem Tracked.free (h : Tracked s) (hx : s.jobs j = some x)
    (hno : ∀ l, OnQueue s l → j ∉ l) (hpc : ¬(x.pc = .counter ∨ x.pc = .mapping)) :
    Tracked (context_free s j) := by
  have hjobs : (context_free s j).jobs = Function.update s.jobs j (some x.free) :=
    alterJob_jobs hx _
  have htable : (context_free s j).msgtable = freeMsg s.msgtable x.msg := by
    simp [context_free, hx]
  -- a slot that stays is not the one of the freed job
  have hstay : ∀ i m, (context_free s j).msgtable i = some m ↔
      s.msgtable i = some m ∧ x.msg ≠ some i := by
    intro i m
    rw [htable]
    rcases x.msg with _ | i'
    · simp [freeMsg]
    · by_cases hii : i = i'
      · subst hii
        simp [freeMsg]
      · simp [freeMsg, hii, Ne.symm hii]
  -- and no other job has that slot
  have hother : ∀ k z i, k ≠ j → s.jobs k = some z → z.msg = some i → x.msg ≠ some i := by
    intro k z i hkj hz hzi hxi
    obtain ⟨m, hm, hmk⟩ := h.message k z i hz hzi
    obtain ⟨m', hm', hmj⟩ := h.message j x i hx hxi
    cases hm.symm.trans hm'
    exact hkj (Option.some.inj (hmk.symm.trans hmj))
  constructor
  case owner =>
    intro i m k hm hk
    obtain ⟨hm, hxi⟩ := (hstay i m).mp hm
    obtain ⟨z, hz, hzf, hzi⟩ := h.owner i m k hm hk
    have hkj : k ≠ j := by
      rintro rfl
      cases hx.symm.trans hz
      exact hxi hzi
    exact ⟨z, by simp [hjobs, hkj, hz], hzf, hzi⟩
  case message =>
    intro k z i hz hzi
    rw [hjobs] at hz
    rcases update_some hz with ⟨rfl, rfl⟩ | ⟨hkj, hz⟩
    · cases hzi
    · obtain ⟨m, hm, hmk⟩ := h.message k z i hz hzi
      exact ⟨m, (hstay i m).mpr ⟨hm, hother k z i hkj hz hzi⟩, hmk⟩
  case early =>
    intro k z hz hzpc
    rw [hjobs] at hz
    rcases update_some hz with ⟨rfl, rfl⟩ | ⟨_, hz⟩
    · exact absurd hzpc hpc
    · exact h.early k z hz hzpc
  case handed =>
    intro k z hz
    rw [hjobs] at hz
    rcases update_some hz with ⟨rfl, rfl⟩ | ⟨_, hz⟩
    · exact h.handed k x hx
    · exact h.handed k z hz
  case holding =>
    intro c k hc
    obtain ⟨z, hz, hpos⟩ := h.holding c k hc
    by_cases hkj : k = j
    · subst hkj
      cases hx.symm.trans hz
      exact ⟨x.free, by simp [hjobs], hpos⟩
    · exact ⟨z, by simp [hjobs, hkj, hz], hpos⟩
  case queue =>
    obtain ⟨l, hl⟩ := h.queue
    refine ⟨l, hl.holds, fun k hk => ?_, hl.count⟩
    obtain ⟨z, i, m, hz, hzf, hzi, hm, hrx⟩ := hl.answered k hk
    have hkj : k ≠ j := fun he => hno l hl (he ▸ hk)
    exact ⟨z, i, m, by simp [hjobs, hkj, hz], hzf, hzi,
      (hstay i m).mpr ⟨hm, hother k z i hkj hz hzi⟩, hrx⟩

/-! ## The queue -/

/-- A context that is answered and not on the queue comes on it. -/
theorem Tracked.queue_completed (h : Tracked s) (hj : Answered s j) (hno : Unlinked s j) :
    Tracked (vfastrpc_queue_completed_async_job s j) := by
  unfold vfastrpc_queue_completed_async_job
  split
  · exact h
  · rename_i hhashed
    obtain ⟨l, hl⟩ := h.queue
    constructor
    case owner => exact h.owner
    case message => exact h.message
    case early => exact h.early
    case handed =>
      intro k z hz
      obtain ⟨hle, hun⟩ := h.handed k z hz
      refine ⟨hle, fun hpos => ?_⟩
      have hkj : k ≠ j := fun he => hhashed (he ▸ hun hpos)
      simp only [unhashed_add_head hl.holds, hun hpos, hkj, ne_eq, not_false_eq_true, decide_true,
        Bool.and_self]
    case holding => exact h.holding
    case queue =>
      refine ⟨j :: l, hl.holds.add_head (hno.not_mem hl.holds), ?_, fun hs => ?_⟩
      · intro k hk
        rcases List.mem_cons.mp hk with rfl | hk
        · exact hj
        · exact hl.answered k hk
      · have hcount := hl.count hs
        simp only [List.length_cons, hcount]
        omega

/-- The receive callback. -/
theorem Tracked.recv (h : Tracked s) (i : Nat) (hc : NotQueued s (.recv i)) :
    Tracked (recv_single s i) := by
  unfold recv_single
  rcases hm : s.msgtable i with _ | m
  · exact h
  · have hset : Tracked (s.setMsg i (some { m with rxbuf := true })) :=
      h.setMsg hm rfl (fun _ => rfl)
    obtain ⟨_ | j, _ | _, rx⟩ := m
    · exact hset
    · exact hset
    · exact hset
    · obtain ⟨x, hx, hfreed, hmsg⟩ := h.owner i _ j hm rfl
      refine hset.queue_completed ⟨x, i, _, hx, hfreed, hmsg, Function.update_self .., rfl⟩ ?_
      exact hc _ j hm rfl rfl

/-- A collector takes the first context of the queue. -/
theorem Tracked.take (h : Tracked s) (c : Nat) : Tracked (take_first s c) := by
  obtain ⟨l, hl⟩ := h.queue
  unfold take_first
  rw [hl.holds.first]
  cases l with
  | nil =>
    refine ⟨h.owner, h.message, h.early, h.handed, fun c' k hk => ?_, [], hl.holds,
      hl.answered, hl.count⟩
    by_cases hcc : c' = c
    · simp [Session.setCollector, hcc] at hk
    · exact h.holding c' k (by simpa [Session.setCollector, hcc] using hk)
  | cons j l =>
    obtain ⟨x, i, m, hx, hfreed, hmsg, hm, hrx⟩ := hl.answered j List.mem_cons_self
    have hhashed : hlist_unhashed s.async_queue j = false :=
      (hl.holds.linked j List.mem_cons_self).1
    have hhanded : x.handed = 0 := by
      rcases Nat.eq_zero_or_pos x.handed with h0 | hpos
      · exact h0
      · exact absurd (hhashed.symm.trans ((h.handed j x hx).2 hpos)) nofun
    have hjobs := alterJob_jobs hx (fun x => { x with handed := x.handed + 1 })
    have hforth : ∀ k z, s.jobs k = some z → ∃ w, Function.update s.jobs j
        (some { x with handed := x.handed + 1 }) k = some w ∧ w.freed = z.freed ∧ w.msg = z.msg ∧
        z.handed ≤ w.handed := by
      intro k z hz
      by_cases hkj : k = j
      · subst hkj
        cases hx.symm.trans hz
        exact ⟨_, Function.update_self .., rfl, rfl, Nat.le_succ _⟩
      · exact ⟨z, by simp [hkj, hz], rfl, rfl, Nat.le_refl _⟩
    constructor
    case owner =>
      intro i' m' k hm' hk
      obtain ⟨z, hz, hzf, hzi⟩ := h.owner i' m' k hm' hk
      obtain ⟨w, hw, hwf, hwi, _⟩ := hforth k z hz
      exact ⟨w, hjobs ▸ hw, hwf.trans hzf, hwi.trans hzi⟩
    case message =>
      intro k z i' hz hzi
      rcases update_some (hjobs ▸ hz) with ⟨rfl, rfl⟩ | ⟨_, hz⟩
      · exact h.message k x i' hx hzi
      · exact h.message k z i' hz hzi
    case early =>
      intro k z hz hzpc
      rcases update_some (hjobs ▸ hz) with ⟨rfl, rfl⟩ | ⟨_, hz⟩
      · -- a context on the queue has a message, so its thread is beyond
        exact absurd (hmsg.symm.trans (h.early k x hx hzpc).2.1) nofun
      · exact h.early k z hz hzpc
    case handed =>
      intro k z hz
      show _ ∧ (_ → hlist_unhashed (hlist_del_init s.async_queue j) k = true)
      rw [unhashed_del_first hl.holds]
      rcases update_some (hjobs ▸ hz) with ⟨rfl, rfl⟩ | ⟨_, hz⟩
      · exact ⟨by simp [hhanded], fun _ => by simp⟩
      · obtain ⟨hle, hun⟩ := h.handed k z hz
        exact ⟨hle, fun hpos => by simp [hun hpos]⟩
    case holding =>
      intro c' k hk
      by_cases hcc : c' = c
      · simp [Session.setCollector, hcc] at hk
        subst hk
        exact ⟨{ x with handed := x.handed + 1 }, hjobs ▸ Function.update_self .., Nat.succ_pos _⟩
      · have hk : s.collectors c' = .holding k := by
          simpa [Session.setCollector, Session.alterJob, hcc] using hk
        obtain ⟨z, hz, hpos⟩ := h.holding c' k hk
        obtain ⟨w, hw, _, _, hle⟩ := hforth k z hz
        exact ⟨w, hjobs ▸ hw, by omega⟩
    case queue =>
      refine ⟨l, hl.holds.del_first, fun k hk => ?_, fun hs => ?_⟩
      · obtain ⟨z, i', m', hz, hzf, hzi, hm', hrx'⟩ := hl.answered k (List.mem_cons_of_mem _ hk)
        obtain ⟨w, hw, hwf, hwi, _⟩ := hforth k z hz
        exact ⟨w, i', m', hjobs ▸ hw, hwf.trans hzf, hwi.trans hzi, hm', hrx'⟩
      · have hcount := hl.count hs
        simp only [List.length_cons] at hcount
        show s.async_queue_job_count - 1 = l.length
        omega

/-- A new context has a node that counts as hashed and is on no list. -/
theorem Tracked.alloc (h : Tracked s) (hs : Settled s) (handle : Nat) :
    Tracked (context_alloc s handle) := by
  have hfresh : s.jobs s.next = none := by
    rcases hx : s.jobs s.next with _ | x
    · rfl
    · exact absurd (hs.known _ x hx) (Nat.lt_irrefl _)
  have hold : ∀ k z, s.jobs k = some z → k ≠ s.next ∧ (context_alloc s handle).jobs k = some z := by
    intro k z hz
    have hk : k ≠ s.next := by
      rintro rfl
      exact absurd (hfresh.symm.trans hz) nofun
    exact ⟨hk, by simp [context_alloc, hk, hz]⟩
  constructor
  case owner =>
    intro i m k hm hk
    obtain ⟨z, hz, hzf, hzi⟩ := h.owner i m k hm hk
    exact ⟨z, (hold k z hz).2, hzf, hzi⟩
  case message =>
    intro k z i hz hzi
    rcases update_some hz with ⟨rfl, rfl⟩ | ⟨_, hz⟩
    · cases hzi
    · exact h.message k z i hz hzi
  case early =>
    intro k z hz hzpc
    rcases update_some hz with ⟨rfl, rfl⟩ | ⟨_, hz⟩
    · exact ⟨rfl, rfl, rfl⟩
    · exact h.early k z hz hzpc
  case handed =>
    intro k z hz
    rcases update_some hz with ⟨rfl, rfl⟩ | ⟨hk, hz⟩
    · exact ⟨Nat.zero_le _, nofun⟩
    · obtain ⟨hle, hun⟩ := h.handed k z hz
      refine ⟨hle, fun hpos => ?_⟩
      simp [context_alloc, unhashed_add_fake, hun hpos, hk]
  case holding =>
    intro c k hc
    obtain ⟨z, hz, hpos⟩ := h.holding c k hc
    exact ⟨z, (hold k z hz).2, hpos⟩
  case queue =>
    obtain ⟨l, hl⟩ := h.queue
    have hnext : s.next ∉ l := by
      intro hmem
      obtain ⟨z, _, _, hz, _⟩ := hl.answered _ hmem
      exact (hold _ z hz).1 rfl
    refine ⟨l, hl.holds.add_fake hnext, fun k hk => ?_, hl.count⟩
    obtain ⟨z, i, m, hz, hzf, hzi, hm, hrx⟩ := hl.answered k hk
    exact ⟨z, i, m, (hold k z hz).2, hzf, hzi, hm, hrx⟩

/-- A slot that is no job's is taken or given back for another message of the driver. -/
theorem Tracked.other_msg (h : Tracked s) {i : Nat} {o : Option Msg}
    (hi : ∀ m, s.msgtable i = some m → m.job = none) (ho : ∀ m, o = some m → m.job = none) :
    Tracked (s.setMsg i o) := by
  have hne : ∀ k z i', s.jobs k = some z → z.msg = some i' → i' ≠ i := by
    rintro k z i' hz hzi rfl
    obtain ⟨m, hm, hmk⟩ := h.message k z i' hz hzi
    exact absurd ((hi m hm).symm.trans hmk) nofun
  constructor
  case owner =>
    intro i' m k hm hk
    by_cases hii : i' = i
    · subst hii
      simp [Session.setMsg] at hm
      exact absurd ((ho m hm).symm.trans hk) nofun
    · exact h.owner i' m k (by simpa [Session.setMsg, hii] using hm) hk
  case message =>
    intro k z i' hz hzi
    obtain ⟨m, hm, hmk⟩ := h.message k z i' hz hzi
    exact ⟨m, by simp [Session.setMsg, hne k z i' hz hzi, hm], hmk⟩
  case early => exact h.early
  case handed => exact h.handed
  case holding => exact h.holding
  case queue =>
    obtain ⟨l, hl⟩ := h.queue
    refine ⟨l, hl.holds, fun k hk => ?_, hl.count⟩
    obtain ⟨z, i', m, hz, hzf, hzi, hm, hrx⟩ := hl.answered k hk
    exact ⟨z, i', m, hz, hzf, hzi, by simp [Session.setMsg, hne k z i' hz hzi, hm], hrx⟩

/-- A step that leaves the jobs, the messages and the queue as they are, and gives no
collector a job. -/
theorem Tracked.of_eq (h : Tracked s) (hjobs : t.jobs = s.jobs) (htable : t.msgtable = s.msgtable)
    (hqueue : t.async_queue = s.async_queue)
    (hcount : t.stage = .open_ →
      s.stage = .open_ ∧ t.async_queue_job_count = s.async_queue_job_count)
    (hcoll : ∀ c j, t.collectors c = .holding j → s.collectors c = .holding j) : Tracked t := by
  constructor
  case owner => rw [htable, hjobs]; exact h.owner
  case message => rw [htable, hjobs]; exact h.message
  case early => rw [hjobs]; exact h.early
  case handed => rw [hjobs, hqueue]; exact h.handed
  case holding =>
    intro c j hc
    rw [hjobs]
    exact h.holding c j (hcoll c j hc)
  case queue =>
    obtain ⟨l, hl⟩ := h.queue
    refine ⟨l, hqueue ▸ hl.holds, fun k hk => ?_, fun ht => ?_⟩
    · obtain ⟨x, i, m, hx, hf, hi, hm, hrx⟩ := hl.answered k hk
      exact ⟨x, i, m, hjobs ▸ hx, hf, hi, htable ▸ hm, hrx⟩
    · obtain ⟨hs, hc⟩ := hcount ht
      exact hc.trans (hl.count hs)

theorem holding_of_setCollector {c : Nat} {k : Collector} (hk : ∀ j, k ≠ .holding j) (c' j : Nat)
    (h : (s.setCollector c k).collectors c' = .holding j) : s.collectors c' = .holding j := by
  by_cases hcc : c' = c
  · simp [Session.setCollector, hcc] at h
    exact absurd h (hk j)
  · simpa [Session.setCollector, hcc] using h

theorem turn_keeps {profile ok acc : Bool} {y : Job}
    (h : turn tracing profile ok x = some (acc, y)) :
    y.freed = x.freed ∧ y.msg = x.msg ∧ y.handed = x.handed ∧
      (y.pc = .counter ∨ y.pc = .mapping → x.pc = .counter ∨ x.pc = .mapping) := by
  unfold turn at h
  split at h
  case h_1 hpc => cases h; simp [hpc]
  case h_2 hpc =>
    split at h
    · cases h
    · cases h; simp
  case h_3 hpc => cases h; cases ok <;> simp
  case h_4 hpc => cases h; simp
  case h_5 ok hpc => cases h; simp
  case h_6 ok hpc => cases h; cases ok <;> simp
  case h_7 hpc => cases h; simp
  case h_8 => cases h

theorem tracked_step (s : Session) (a : Act) (t : Session) (hs : Settled s) (h : Tracked s)
    (hc : NotQueued s a) (ht : step tracing s a = some t) : Tracked t := by
  cases a with
  | set_profile => cases ht; exact h.of_eq rfl rfl rfl (fun h => ⟨h, rfl⟩) (fun _ _ => id)
  | alloc handle =>
    obtain ⟨_, ht⟩ := Option.ite_none_right_eq_some.mp ht
    cases ht
    exact h.alloc hs handle
  | turn j ok =>
    obtain ⟨x, hx, ht⟩ := onJob_some ht
    obtain ⟨⟨acc, y⟩, hturn, rfl⟩ := Option.map_eq_some_iff.mp ht
    obtain ⟨hfreed, hmsg, hhanded, hearly⟩ := turn_keeps hturn
    exact h.of_thread hx rfl hfreed hmsg hhanded hearly rfl rfl rfl rfl rfl
  | msg_alloc j i =>
    obtain ⟨x, hx, ht⟩ := onJob_some ht
    obtain ⟨⟨hpc, hi⟩, ht⟩ := Option.ite_none_right_eq_some.mp ht
    cases ht
    exact h.msg_alloc hx hpc hi
  | msg_ctx j =>
    obtain ⟨x, hx, ht⟩ := onJob_some ht
    obtain ⟨hpc, ht⟩ := Option.ite_none_right_eq_some.mp ht
    rcases hm : x.msg with _ | i
    · simp [hm] at ht
    · simp only [hm, Option.some.injEq] at ht
      subst ht
      obtain ⟨m, hi, _⟩ := h.message j x i hx hm
      have hmid : Tracked ((s.access true x).setJob j { x with pc := .filling }) :=
        h.of_thread hx rfl rfl rfl rfl (by simp) rfl rfl rfl rfl rfl
      have hset : Tracked (((s.access true x).setJob j { x with pc := .filling }).setMsg i
          (some { m with ctx := true })) := hmid.setMsg hi rfl id
      simp only [hm] at hset
      simpa [Session.setJob, Session.access, hi] using hset
  | bail j =>
    obtain ⟨x, hx, ht⟩ := onJob_some ht
    obtain ⟨_, ht⟩ := Option.ite_none_right_eq_some.mp ht
    cases ht
    have hmid : Tracked ((s.access true x).setJob j { x with pc := .invoke_end }) :=
      h.of_thread hx rfl rfl rfl rfl (by simp) rfl rfl rfl rfl rfl
    refine hmid.free (Function.update_self ..) (fun l hl => ?_) (by simp)
    exact hc.not_mem hl.holds
  | other_msg_alloc i =>
    obtain ⟨hi, ht⟩ := Option.ite_none_right_eq_some.mp ht
    cases ht
    apply h.other_msg
    · intro m hm
      cases hi.symm.trans hm
    · rintro m ⟨⟩
      rfl
  | other_msg_free i =>
    obtain ⟨m, hm, ht⟩ := Option.bind_eq_some_iff.mp ht
    obtain ⟨hjob, ht⟩ := Option.ite_none_right_eq_some.mp ht
    cases ht
    apply h.other_msg
    · intro m' hm'
      cases hm.symm.trans hm'
      exact hjob
    · rintro m ⟨⟩
  | recv i =>
    cases ht
    exact h.recv i hc
  | come c =>
    obtain ⟨_, ht⟩ := Option.ite_none_right_eq_some.mp ht
    cases ht
    exact h.of_eq rfl rfl rfl (fun h => ⟨h, rfl⟩) (holding_of_setCollector (by simp))
  | wake c =>
    obtain ⟨_, ht⟩ := Option.ite_none_right_eq_some.mp ht
    cases ht
    refine h.of_eq rfl rfl rfl (fun h => ⟨h, rfl⟩) (holding_of_setCollector ?_)
    split <;> simp
  | interrupt c =>
    obtain ⟨_, ht⟩ := Option.ite_none_right_eq_some.mp ht
    cases ht
    exact h.of_eq rfl rfl rfl (fun h => ⟨h, rfl⟩) (holding_of_setCollector (by simp))
  | take c =>
    obtain ⟨_, ht⟩ := Option.ite_none_right_eq_some.mp ht
    cases ht
    exact h.take c
  | collect c =>
    simp only [step] at ht
    split at ht
    · rename_i j hj
      cases ht
      -- what a collector has got is unhashed, so it is not on the queue
      obtain ⟨x, hx, hpos⟩ := h.holding c j hj
      have hun := (h.handed j x hx).2 hpos
      have hfree : Tracked (context_free s j) := by
        refine h.free hx (fun l hl => ?_) (fun hpc => ?_)
        · exact Unlinked.not_mem (Or.inl hun) hl.holds
        · have h0 := (h.early j x hx hpc).2.2
          omega
      exact hfree.of_eq rfl rfl rfl (fun h => ⟨h, rfl⟩) (holding_of_setCollector (by simp))
    · cases ht
  | close =>
    obtain ⟨_, ht⟩ := Option.ite_none_right_eq_some.mp ht
    cases ht
    exact h.of_eq rfl rfl rfl (by rintro ⟨⟩) (fun _ _ => id)
  | close_wake =>
    obtain ⟨_, ht⟩ := Option.ite_none_right_eq_some.mp ht
    cases ht
    exact h.of_eq rfl rfl rfl (by rintro ⟨⟩) (fun _ _ => id)
  | close_free j =>
    obtain ⟨x, hx, ht⟩ := onJob_some ht
    obtain ⟨⟨hstage, _⟩, ht⟩ := Option.ite_none_right_eq_some.mp ht
    cases ht
    refine h.free hx (fun l hl => hc.not_mem hl.holds) ?_
    have hreturned := hs.quiet (by rw [hstage]; simp) j x hx
    simp [hreturned]

/-- For any order of the responses, the collections and the other steps: when no response
comes for a context that is on the queue, and neither the issuing thread nor the release of
the file frees such a context, then the queue is always a finite list without repeated
contexts, all of them live and with a response, the job count is its length until the file is
released, and each job goes to at most one collector. -/
theorem async_completions_are_queued_once (tracing : Bool) (as : List Act) (s : Session)
    (hm : Meets (step tracing) NotQueued Session.init as)
    (hr : run (step tracing) Session.init as = some s) : QueuedOnce s := by
  have h := (run_inv_of_meets (fun s => Settled s ∧ Tracked s)
    (fun s a t h hc ht => ⟨settled_step s a t h.1 ht, tracked_step s a t h.1 h.2 hc ht⟩)
    ⟨settled_init, tracked_init⟩ hm hr).2
  exact ⟨h.queue, fun j x hx => (h.handed j x hx).1⟩

/-- The response of an invoke comes once before it is collected, and once again when the
context is free. -/
theorem a_late_repeated_response_is_ignored :
    ∃ s, run (step false) Session.init
        (issued ++ (.recv 7 :: ([.come 0, .wake 0, .take 0, .collect 0] ++ [.recv 7]))) = some s ∧
      QueuedOnce s := by
  refine ⟨_, rfl, async_completions_are_queued_once false
    (issued ++ (.recv 7 :: ([.come 0, .wake 0, .take 0, .collect 0] ++ [.recv 7]))) _ ?_ rfl⟩
  refine Meets.append (meets_of_forall ?_ _) rfl (Meets.cons ?_ rfl
    (Meets.append (meets_of_forall ?_ _) rfl (Meets.cons ?_ rfl trivial)))
  · simp [issued, NotQueued]
  · rintro m j ⟨⟩ ⟨⟩ _
    exact Or.inr rfl
  · simp [NotQueued]
  · rintro m j ⟨⟩

/-- The same response twice before it is collected: the node of the context points to itself,
and two collectors get the one job. -/
theorem a_repeated_response_breaks_the_queue :
    (∃ s, run (step false) Session.init (issued ++ [.recv 7, .recv 7]) = some s ∧
      ¬QueuedOnce s) ∧
    (run (step false) Session.init (issued ++ [.recv 7, .recv 7, .come 0, .wake 0, .take 0,
      .collect 0, .come 1, .wake 1, .take 1])).bind (fun s => (s.jobs 0).map Job.handed) =
        some 2 := by
  refine ⟨⟨_, rfl, ?_⟩, rfl⟩
  rintro ⟨⟨l, hl⟩, _⟩
  exact not_holds_of_loop (n := 0) rfl rfl ⟨l, hl.holds⟩

end virtual_fastrpc.async_jobs
