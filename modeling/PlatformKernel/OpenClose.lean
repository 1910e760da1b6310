-- The processes that the backend opens for a session and those that it is told
-- to close. INIT may be asked for any number of times, each time with a process
-- of its own, and the release closes one.
import PlatformKernel.Sessions

namespace virtual_fastrpc.open_close

open virtual_fastrpc.sessions keyed step_runs

/-! ## The law and its condition -/

/-- The channel ids that name a process. The drivers refuse a negative one, and there is then
nothing to close. -/
def processes (cids : List Int) : List Int := cids.filter (fun cid => 0 ≤ cid)

/-- The processes of a session. -/
def outstanding (f : File) : List Int := processes (f.opened.map Prod.fst)

/-- Every process of a released session was closed once, nothing else was, and a session has
at most one. -/
structure Matched (s : Apps) : Prop where
  released : ∀ r ∈ s.released, r.closed.Perm (processes r.opened)
  one : ∀ f ∈ s.drivers, (outstanding f).length ≤ 1

/-- The backend opens no further process for a session that is initialised. -/
def OpensOnce (s : Apps) : Act → Prop
  | .ioctl v (.init true _ e) => ∀ f, s.file v = some f → f.dsp_proc_init = true →
    ∀ cid, e.answer = .reply 0 cid → cid < 0
  | _ => True

theorem processes_cons_neg {cid : Int} {cids : List Int} (h : cid < 0) :
    processes (cid :: cids) = processes cids := by
  simp [processes, h]

theorem processes_cons {cid : Int} {cids : List Int} (h : 0 ≤ cid) :
    processes (cid :: cids) = cid :: processes cids := by
  simp [processes, h]

/-! ## The invariant -/

/-- A session that is not initialised has no process, and one that is has the one that its
channel id names. It is bound, so its channel id stays. -/
structure Held (f : File) : Prop where
  closed : f.dsp_proc_init = false → outstanding f = []
  running : f.dsp_proc_init = true → outstanding f = [f.cid] ∧ 0 ≤ f.cid ∧ f.domain ≠ -1

/-- The release closes what the session has. -/
theorem Held.close {f : File} (h : Held f) : virt_fastrpc_close f = outstanding f := by
  unfold virt_fastrpc_close
  cases hp : f.dsp_proc_init with
  | false => simp [h.closed hp]
  | true =>
    obtain ⟨ho, hpos, _⟩ := h.running hp
    simp [ho, hpos]

theorem Held.length_le {f : File} (h : Held f) : (outstanding f).length ≤ 1 := by
  cases hp : f.dsp_proc_init with
  | false => simp [h.closed hp]
  | true => simp [(h.running hp).1]

theorem held_file_alloc (v : Nat) (m : Minor) (tgid : Int) : Held (file_alloc v m tgid) where
  closed := fun _ => rfl
  running := by simp [file_alloc]

/-! ## The steps -/

section changes

variable {c : Config} {s : Apps} {f g : File}

/-- A change that leaves what a session has. -/
theorem Held.congr (h : Held f) (ho : outstanding g = outstanding f)
    (hp : g.dsp_proc_init = f.dsp_proc_init)
    (hb : f.dsp_proc_init = true → g.cid = f.cid ∧ g.domain = f.domain) : Held g where
  closed := by
    intro hg
    rw [ho]
    exact h.closed (hp ▸ hg)
  running := by
    intro hg
    rw [hp] at hg
    obtain ⟨hcid, hdom⟩ := hb hg
    rw [ho, hcid, hdom]
    exact h.running hg

/-- A bound session keeps its channel id. -/
theorem Held.setup {r : Done} (h : Held f) (hs : Setup c s f r) : Held r.file := by
  apply h.congr
  · rw [outstanding, hs.opened]
    rfl
  · exact hs.dsp_proc_init
  · intro hp
    obtain ⟨_, _, hd⟩ := h.running hp
    rcases hs.bound with ⟨hdom, hcid⟩ | ⟨hfree, _⟩
    · exact ⟨hcid, hdom⟩
    · exact absurd hfree hd

theorem Held.accept {u : InitAttrs} {cid : Int} (h : Held f) (hm : MayOpen c s f g u)
    (honce : f.dsp_proc_init = true → cid < 0) :
    Held (if cid < 0 then { g with opened := (cid, asks_unsigned c u.attrs) :: g.opened }
      else { g with
        opened := (cid, asks_unsigned c u.attrs) :: g.opened, cid, dsp_proc_init := true }) := by
  have hdom := hm.domain_pos
  obtain ⟨n, rfl⟩ := hm.file
  split
  · rename_i hneg
    apply h.congr
    · exact processes_cons_neg hneg
    · rfl
    · exact fun _ => ⟨rfl, rfl⟩
  · rename_i hpos
    -- the session was not initialised, so this is its only process
    have hnone : outstanding f = [] := by
      apply h.closed
      simpa using fun hp => hpos (honce hp)
    refine ⟨fun hp => absurd hp (by simp), fun _ => ⟨?_, by simpa using hpos, ?_⟩⟩
    · have hcons := @processes_cons cid (f.opened.map Prod.fst) (by simpa using hpos)
      unfold outstanding at hnone
      rw [hnone] at hcons
      exact hcons
    · show f.domain ≠ -1
      omega

theorem changed_held {v : Nat} {q : Req} (hf : s.file v = some f) (h : Held f)
    (honce : OpensOnce s (.ioctl v q)) (hch : Changed c s f q g) : Held g := by
  cases hch with
  | setup hs => exact h.setup hs
  | refused _ => exact h.congr rfl rfl (fun _ => ⟨rfl, rfl⟩)
  | not_accepted hm =>
    obtain ⟨n, rfl⟩ := hm.file
    exact h.congr rfl rfl (fun _ => ⟨rfl, rfl⟩)
  | accepted hm ha hg =>
    rw [hg]
    exact h.accept hm (fun hp => honce f hf hp _ ha)

end changes

structure Inv (s : Apps) : Prop where
  held : ∀ f ∈ s.drivers, Held f
  released : ∀ r ∈ s.released, r.closed = processes r.opened

theorem step_inv {c : Config} (s : Apps) (a : Act) (t : Apps) (h : Inv s) (honce : OpensOnce s a)
    (ht : step c s a = some t) : Inv t where
  held := by
    apply step_each Held held_file_alloc _ h.held ht
    rintro v q f g rfl hf hheld hch
    exact changed_held hf hheld honce hch
  released := by
    intro r hr
    rcases released_cases ht hr with hr | ⟨v, f, hf, rfl⟩
    · exact h.released r hr
    · exact (h.held f (mem_of_lookup hf)).close

/-! ## The law -/

/-- In every run of either driver in which the backend opens no further process for an
initialised session, every process that it opened for a released session was closed exactly
once, and no session has two. -/
theorem every_opened_process_is_closed {c : Config} {s : Apps}
    (hr : ReachableUnder (step c) OpensOnce (init c) s) : Matched s := by
  have hinit : Inv (init c) :=
    ⟨fun _ hf => absurd hf List.not_mem_nil, fun _ hr => absurd hr List.not_mem_nil⟩
  have h : Inv s := hr.inv Inv step_inv hinit
  refine ⟨?_, fun f hf => (h.held f hf).length_le⟩
  intro r hr
  rw [h.released r hr]

/-- One process, opened and closed. -/
theorem one_process_is_closed :
    ∃ s, run (step (sampleConfig .virtio)) (init (sampleConfig .virtio))
        [.open_node 1 .MINOR_NUM_DEV 50, .ioctl 1 (.getinfo true 3 ⟨50, true, true⟩ true),
          .ioctl 1 (.init true ⟨.FASTRPC_INIT_CREATE, 0, 0, 0⟩ ⟨true, true, .reply 0 11⟩),
          .release 1] = some s ∧
      s.released = [⟨[11], [11]⟩] ∧ Matched s := by
  refine ⟨_, rfl, by decide, ?_⟩
  apply every_opened_process_is_closed (c := sampleConfig .virtio)
  refine ⟨[.open_node 1 .MINOR_NUM_DEV 50, .ioctl 1 (.getinfo true 3 ⟨50, true, true⟩ true),
    .ioctl 1 (.init true ⟨.FASTRPC_INIT_CREATE, 0, 0, 0⟩ ⟨true, true, .reply 0 11⟩),
    .release 1], ?_, rfl⟩
  refine .cons trivial rfl ?_
  refine .cons trivial rfl ?_
  refine ⟨?_, fun _ _ => ⟨trivial, fun _ _ => trivial⟩⟩
  rintro f ⟨⟩ hp
  exact absurd hp (by decide)

/-- A second INIT opens a second process, in both drivers, and the release closes only that
one. -/
theorem a_second_init_leaves_a_process_open :
    let Leaves : Driver → Prop := fun d =>
      ∃ s, run (step (sampleConfig d)) (init (sampleConfig d))
          [.open_node 1 .MINOR_NUM_DEV 50, .ioctl 1 (.getinfo true 3 ⟨50, true, true⟩ true),
            .ioctl 1 (.init true ⟨.FASTRPC_INIT_CREATE, 0, 0, 0⟩ ⟨true, true, .reply 0 11⟩),
            .ioctl 1 (.init true ⟨.FASTRPC_INIT_CREATE, 0, 0, 0⟩ ⟨true, true, .reply 0 12⟩),
            .release 1] = some s ∧
        s.released = [⟨[12, 11], [12]⟩] ∧ ¬ Matched s
    Leaves .virtio ∧ Leaves .hybrid := by
  intro Leaves
  have hnot : ∀ s : Apps, s.released = [⟨[12, 11], [12]⟩] → ¬ Matched s := by
    intro s hs h
    exact absurd (h.released ⟨[12, 11], [12]⟩ (by simp [hs])) (by decide)
  refine ⟨⟨_, rfl, by decide, hnot _ (by decide)⟩, ⟨_, rfl, by decide, hnot _ (by decide)⟩⟩

end virtual_fastrpc.open_close
