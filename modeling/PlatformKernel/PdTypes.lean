-- The type of the processes that one process of the user has on one domain,
-- in the hybrid driver. INIT compares the session with all the others, but by
-- their channel ids, which an OPEN reply changes, and by a mark that a failed
-- INIT leaves behind.
import PlatformKernel.Sessions

namespace virtual_fastrpc.pd_types

open virtual_fastrpc.sessions keyed step_runs

/-! ## The law and its condition -/

/-- Two initialised sessions of one process of the user, on one domain. -/
def SameProcess (x y : File) : Prop :=
  x.dsp_proc_init = true ∧ y.dsp_proc_init = true ∧ x.tgid = y.tgid ∧ x.domain = y.domain

/-- No two of them differ in whether they were opened as an unsigned PD. A reply with a
negative channel id fails its INIT. -/
def OnePdType (s : Apps) : Prop :=
  ∀ x ∈ s.drivers, ∀ y ∈ s.drivers, x.ptr ≠ y.ptr → SameProcess x y →
    ∀ p ∈ x.opened, ∀ q ∈ y.opened, 0 ≤ p.1 → 0 ≤ q.1 → p.2 = q.2

instance (x y : File) : Decidable (SameProcess x y) :=
  inferInstanceAs (Decidable (_ ∧ _ ∧ _ ∧ _))

instance (s : Apps) : Decidable (OnePdType s) :=
  inferInstanceAs (Decidable (∀ x ∈ s.drivers, ∀ y ∈ s.drivers, x.ptr ≠ y.ptr →
    SameProcess x y → ∀ p ∈ x.opened, ∀ q ∈ y.opened, 0 ≤ p.1 → 0 ≤ q.1 → p.2 = q.2))

/-- An INIT that creates a process asks for the type that its session is marked with, the mark of an
initialised session does not change, and the initialised sessions of the process on the domain have
the channel id of the session. -/
def KeepsType (c : Config) (s : Apps) : Act → Prop
  | .ioctl v (.init true u _) => ∀ f, s.file v = some f → u.flags = .FASTRPC_INIT_CREATE →
    (f.is_unsigned_pd = true → asks_unsigned c u.attrs = true) ∧
    (f.dsp_proc_init = true → asks_unsigned c u.attrs = true → f.is_unsigned_pd = true) ∧
    ∀ y ∈ s.drivers, y.dsp_proc_init = true → y.tgid = f.tgid → y.domain = f.domain →
      y.cid = f.cid
  | _ => True

/-! ## The invariant -/

/-- A session with a domain has its process set for good, and all that it has opened is of
the type of its mark. -/
structure Settled (f : File) : Prop where
  bound : f.domain ≠ -1 → f.set_session_info = true
  started : f.dsp_proc_init = true → f.domain ≠ -1
  typed : ∀ p ∈ f.opened, 0 ≤ p.1 → f.dsp_proc_init = true ∧ p.2 = f.is_unsigned_pd

structure Aligned (s : Apps) : Prop where
  each : ∀ f ∈ s.drivers, Settled f
  pair : ∀ x ∈ s.drivers, ∀ y ∈ s.drivers, x.ptr ≠ y.ptr → SameProcess x y →
    x.is_unsigned_pd = y.is_unsigned_pd

theorem aligned_init (c : Config) : Aligned (init c) where
  each := fun _ hf => absurd hf List.not_mem_nil
  pair := fun _ hx => absurd hx List.not_mem_nil

theorem Aligned.one_type {s : Apps} (h : Aligned s) : OnePdType s := by
  intro x hx y hy hxy hsame p hp q hq hp0 hq0
  have hpt := ((h.each x hx).typed p hp hp0).2
  have hqt := ((h.each y hy).typed q hq hq0).2
  rw [hpt, hqt]
  exact h.pair x hx y hy hxy hsame

theorem SameProcess.symm {x y : File} (h : SameProcess x y) : SameProcess y x :=
  ⟨h.2.1, h.1, h.2.2.1.symm, h.2.2.2.symm⟩

/-! ## The steps -/

theorem settled_file_alloc (v : Nat) (m : Minor) (tgid : Int) : Settled (file_alloc v m tgid) where
  bound := by simp [file_alloc]
  started := by simp [file_alloc]
  typed := by simp [file_alloc]

/-- A setup leaves a session that is initialised as it is. -/
theorem Settled.setup {c : Config} {s : Apps} {f : File} {r : Done} (h : Settled f)
    (hs : Setup c s f r) :
    Settled r.file ∧ (r.file.dsp_proc_init = true →
      f.dsp_proc_init = true ∧ r.file.tgid = f.tgid ∧ r.file.domain = f.domain) := by
  have hkeep : f.domain ≠ -1 → r.file.set_session_info = true ∧ r.file.tgid = f.tgid ∧
      r.file.domain = f.domain := by
    intro hd
    obtain ⟨h1, h2, h3, _⟩ := hs.info (h.bound hd)
    exact ⟨h1, h2, h3⟩
  refine ⟨⟨?_, ?_, ?_⟩, ?_⟩
  · intro hd
    rcases hs.bound with ⟨hd', _⟩ | ⟨_, hset, _⟩
    · exact (hkeep (by rwa [hd'] at hd)).1
    · exact hset
  · intro hp
    rw [hs.dsp_proc_init] at hp
    have hd := h.started hp
    rw [(hkeep hd).2.2]
    exact hd
  · rw [hs.opened, hs.dsp_proc_init, hs.is_unsigned_pd]
    exact h.typed
  · intro hp
    rw [hs.dsp_proc_init] at hp
    obtain ⟨_, ht, hd⟩ := hkeep (h.started hp)
    exact ⟨hp, ht, hd⟩

/-- An INIT may write the mark of a session that is not initialised, and of one that is only
when it has that mark already. -/
theorem Settled.mark {f : File} {flag : Bool} (h : Settled f) (n : Nat)
    (hflag : f.dsp_proc_init = true → flag = f.is_unsigned_pd) :
    Settled { f with ssrcount := n, is_unsigned_pd := flag } where
  bound := h.bound
  started := h.started
  typed := by
    intro p hp hp0
    obtain ⟨hinit, ht⟩ := h.typed p hp hp0
    exact ⟨hinit, ht.trans (hflag hinit).symm⟩

/-- An OPEN that the backend has accepted. -/
theorem Settled.accept {g : File} {cid : Int} {asks : Bool} (h : Settled g)
    (hd : g.domain ≠ -1) (hasks : 0 ≤ cid → asks = g.is_unsigned_pd) :
    Settled (if cid < 0 then { g with opened := (cid, asks) :: g.opened }
      else { g with opened := (cid, asks) :: g.opened, cid, dsp_proc_init := true }) := by
  split
  · rename_i hneg
    refine ⟨h.bound, h.started, ?_⟩
    intro p hp hp0
    rcases List.mem_cons.mp hp with rfl | hp
    · exact absurd hp0 (by simpa using hneg)
    · exact h.typed p hp hp0
  · rename_i hpos
    refine ⟨h.bound, fun _ => hd, ?_⟩
    intro p hp hp0
    rcases List.mem_cons.mp hp with rfl | hp
    · exact ⟨rfl, hasks hp0⟩
    · exact ⟨rfl, (h.typed p hp hp0).2⟩

section changes

variable {c : Config} {s : Apps} {f g : File} {u : InitAttrs}

/-- The session with which the hybrid driver sends the OPEN message. -/
theorem may_open_marked (hc : c.driver = .hybrid) (hm : MayOpen c s f g u) :
    ∃ n, g = { f with
      ssrcount := n, is_unsigned_pd := f.is_unsigned_pd || asks_unsigned c u.attrs } := by
  obtain ⟨n, hg⟩ := hm.file
  rw [hc] at hg
  exact ⟨n, hg⟩

/-- The check of INIT, when the channel ids are the same. -/
theorem no_other_type (hc : c.driver = .hybrid) (hm : MayOpen c s f g u) {y : File}
    (hy : y ∈ s.drivers) (hptr : y.ptr ≠ g.ptr) (ht : y.tgid = g.tgid) (hcid : y.cid = g.cid) :
    g.is_unsigned_pd = y.is_unsigned_pd := by
  have hclash := hm.no_clash hc
  unfold pd_type_clash at hclash
  have hy' := List.any_eq_false.mp hclash y hy
  simp [hptr, ht, hcid] at hy'
  exact hy'.symm

/-- What a request leaves of a session and of its agreement with the others. -/
structure Kept (s : Apps) (f g : File) : Prop where
  ptr : g.ptr = f.ptr
  settled : Settled g
  agrees : ∀ y ∈ s.drivers, y.ptr ≠ f.ptr →
    (SameProcess f y → f.is_unsigned_pd = y.is_unsigned_pd) →
    SameProcess g y → g.is_unsigned_pd = y.is_unsigned_pd

/-- The mark of the session changes, if at all, before it is initialised. -/
theorem Kept.mark {flag : Bool} (h : Settled f) (n : Nat)
    (hflag : f.dsp_proc_init = true → flag = f.is_unsigned_pd) :
    Kept s f { f with ssrcount := n, is_unsigned_pd := flag } where
  ptr := rfl
  settled := h.mark n hflag
  agrees := by
    intro y _ _ hold hsame
    exact (hflag hsame.1).trans (hold hsame)

/-- An INIT on an initialised session asks for nothing that its mark does not say. -/
theorem mark_kept {asks : Bool} (hasks : f.dsp_proc_init = true → asks = true →
    f.is_unsigned_pd = true) : f.dsp_proc_init = true →
    (f.is_unsigned_pd || asks) = f.is_unsigned_pd := by
  intro hp
  cases hu : asks
  · simp
  · simp [hasks hp hu]

theorem Kept.accept (hc : c.driver = .hybrid) {cid : Int} (h : Settled f)
    (hm : MayOpen c s f g u)
    (hasks : f.is_unsigned_pd = true → asks_unsigned c u.attrs = true)
    (hmark : f.dsp_proc_init = true → asks_unsigned c u.attrs = true → f.is_unsigned_pd = true)
    (hcid : ∀ y ∈ s.drivers, y.dsp_proc_init = true → y.tgid = f.tgid → y.domain = f.domain →
      y.cid = f.cid) :
    Kept s f (if cid < 0 then { g with opened := (cid, asks_unsigned c u.attrs) :: g.opened }
      else { g with
        opened := (cid, asks_unsigned c u.attrs) :: g.opened, cid, dsp_proc_init := true }) := by
  have hpos := hm.domain_pos
  obtain ⟨n, hg⟩ := may_open_marked hc hm
  have hk : Kept s f g := by
    rw [hg]
    exact Kept.mark h n (mark_kept hmark)
  have hdom : g.domain ≠ -1 := by
    rw [hg]
    show f.domain ≠ -1
    omega
  have htype : asks_unsigned c u.attrs = g.is_unsigned_pd := by
    rw [hg]
    cases hu : f.is_unsigned_pd
    · simp
    · simp [hasks hu]
  refine ⟨?_, hk.settled.accept hdom (fun _ => htype), ?_⟩
  · rw [← hk.ptr]
    split <;> rfl
  · intro y hy hptr hold hsame
    by_cases hneg : cid < 0
    · rw [if_pos hneg] at hsame ⊢
      exact hk.agrees y hy hptr hold hsame
    · -- the session is initialised now, and the check has compared it with every other
      rw [if_neg hneg] at hsame ⊢
      obtain ⟨_, hyp, ht, hd⟩ := hsame
      rw [hg] at ht hd
      have hyc := hcid y hy hyp ht.symm hd.symm
      apply no_other_type hc hm hy
      · rwa [hk.ptr]
      · rw [hg]
        exact ht.symm
      · rw [hg]
        exact hyc

theorem changed_kept (hc : c.driver = .hybrid) {v : Nat} {q : Req} (hf : s.file v = some f)
    (h : Settled f) (hk : KeepsType c s (.ioctl v q)) (hch : Changed c s f q g) : Kept s f g := by
  cases hch with
  | setup hs =>
    obtain ⟨hset, hkeep⟩ := h.setup hs
    refine ⟨hs.ptr, hset, ?_⟩
    intro y _ _ hold ⟨hx, hy, ht, hd⟩
    obtain ⟨hfx, hft, hfd⟩ := hkeep hx
    rw [hs.is_unsigned_pd]
    exact hold ⟨hfx, hy, hft ▸ ht, hfd ▸ hd⟩
  | refused hflag =>
    apply Kept.mark h
    intro hp
    rcases hflag with rfl | ⟨hcreate, rfl, ha⟩
    · rfl
    · exact ((hk f hf hcreate).2.1 hp ha).symm
  | not_accepted hm =>
    obtain ⟨_, hmark, _⟩ := hk f hf hm.create
    obtain ⟨n, rfl⟩ := may_open_marked hc hm
    exact Kept.mark h n (mark_kept hmark)
  | accepted hm _ hg =>
    obtain ⟨hasks, hmark, hcid⟩ := hk f hf hm.create
    rw [hg]
    exact Kept.accept hc h hm hasks hmark hcid

end changes

theorem step_aligned {c : Config} (hc : c.driver = .hybrid) (s : Apps) (a : Act) (t : Apps)
    (h : Aligned s) (hk : KeepsType c s a) (ht : step c s a = some t) : Aligned t := by
  -- a session of the new state that has changed agrees with every one that has not
  have hone : ∀ x ∈ t.drivers, ∀ y ∈ s.drivers, x.ptr ≠ y.ptr → SameProcess x y →
      x.is_unsigned_pd = y.is_unsigned_pd := by
    intro x hx y hy hxy hsame
    rcases session_cases ht hx with hx | ⟨v, m, tgid, _, rfl⟩ | ⟨v, q, f, rfl, hf, hch⟩
    · exact h.pair x hx y hy hxy hsame
    · exact absurd hsame.1 (by simp [file_alloc])
    · have hmem := mem_of_lookup hf
      have hkept := changed_kept hc hf (h.each f hmem) hk hch
      have hne : y.ptr ≠ f.ptr := by
        rw [← hkept.ptr]
        exact hxy.symm
      exact hkept.agrees y hy hne (h.pair f hmem y hy hne.symm) hsame
  refine ⟨?_, ?_⟩
  · apply step_each Settled settled_file_alloc _ h.each ht
    rintro v q f g rfl hf hs hch
    exact (changed_kept hc hf hs hk hch).settled
  · intro x hx y hy hxy hsame
    rcases session_cases ht hy with hy | ⟨v, m, tgid, _, rfl⟩ | ⟨v, q, f, rfl, hf, hch⟩
    · exact hone x hx y hy hxy hsame
    · exact absurd hsame.2.1 (by simp [file_alloc])
    · have hkept := changed_kept hc hf (h.each f (mem_of_lookup hf)) hk hch
      rcases session_cases ht hx with hx | ⟨_, _, _, hact, _⟩ | ⟨w, q', f', hact, hf', hch'⟩
      · exact (hone y hy x hx hxy.symm hsame.symm).symm
      · cases hact
      · -- both are the session of the request
        cases hact
        cases hf.symm.trans hf'
        have hkept' := changed_kept hc hf (h.each f (mem_of_lookup hf)) hk hch'
        exact absurd (hkept'.ptr.trans hkept.ptr.symm) hxy

/-! ## The law -/

/-- In every run of the hybrid driver whose INITs keep the type, no two initialised sessions of
one process on one domain differ in the type of what they have opened. -/
theorem one_pd_type_per_process {c : Config} (hc : c.driver = .hybrid) {s : Apps}
    (hr : ReachableUnder (step c) (KeepsType c) (init c) s) : OnePdType s :=
  (hr.inv Aligned (step_aligned hc) (aligned_init c)).one_type

/-- Two signed processes of one process of the user, with the domain as their channel id. -/
def twoSigned : List Act :=
  [.open_node 1 .MINOR_NUM_SECURE_DEV 50, .open_node 2 .MINOR_NUM_SECURE_DEV 50,
    .ioctl 1 (.getinfo true 3 ⟨50, true, true⟩ true),
    .ioctl 2 (.getinfo true 3 ⟨50, true, true⟩ true),
    .ioctl 1 (.init true ⟨.FASTRPC_INIT_CREATE, 0, 0, 0⟩ ⟨true, true, .reply 0 3⟩),
    .ioctl 2 (.init true ⟨.FASTRPC_INIT_CREATE, 0, 0, 0⟩ ⟨true, true, .reply 0 3⟩)]

theorem two_signed_sessions :
    ∃ s, run (step (sampleConfig .hybrid)) (init (sampleConfig .hybrid)) twoSigned = some s ∧
      s.drivers.map (fun f => (f.dsp_proc_init, f.opened)) =
        [(true, [(3, false)]), (true, [(3, false)])] ∧ OnePdType s := by
  refine ⟨_, rfl, by decide, ?_⟩
  refine one_pd_type_per_process (c := sampleConfig .hybrid) rfl ⟨twoSigned, ?_, rfl⟩
  refine .cons trivial rfl ?_
  refine .cons trivial rfl ?_
  refine .cons trivial rfl ?_
  refine .cons trivial rfl ?_
  refine .cons ?_ rfl (.cons ?_ rfl trivial)
  · rintro f ⟨⟩
    decide
  · rintro f ⟨⟩
    decide

/-- Three runs of one process of the user on one domain: the first session is given a channel
id of the backend and the second is not compared with it; the second session keeps the mark of
an INIT that failed and is then opened without it; the first session gets the mark after it
was opened without it. -/
theorem two_pd_types_of_one_process :
    let nodes : List Act :=
      [.open_node 1 .MINOR_NUM_SECURE_DEV 50, .open_node 2 .MINOR_NUM_SECURE_DEV 50]
    let binds : Nat → Act := fun v => .ioctl v (.getinfo true 3 ⟨50, true, true⟩ true)
    let asks : Nat → BitVec 32 → OpenAnswer → Act := fun v attrs answer =>
      .ioctl v (.init true ⟨.FASTRPC_INIT_CREATE, attrs, 0, 0⟩ ⟨true, true, answer⟩)
    ∀ as ∈ [[binds 1, asks 1 8 (.reply 0 11), binds 2, asks 2 0 (.reply 0 12)],
        [binds 1, asks 1 8 (.reply 0 3), binds 2, asks 2 8 (.reply 5 0), asks 2 0 (.reply 0 3)],
        [binds 1, asks 1 0 (.reply 0 3), asks 1 8 (.reply 5 0), binds 2, asks 2 8 (.reply 0 3)]],
      ∃ s, run (step (sampleConfig .hybrid)) (init (sampleConfig .hybrid)) (nodes ++ as) =
        some s ∧ ¬ OnePdType s := by
  intro nodes binds asks as hrest
  simp only [List.mem_cons, List.not_mem_nil, or_false] at hrest
  rcases hrest with rfl | rfl | rfl
  · exact ⟨_, rfl, by decide⟩
  · exact ⟨_, rfl, by decide⟩
  · exact ⟨_, rfl, by decide⟩

end virtual_fastrpc.pd_types
