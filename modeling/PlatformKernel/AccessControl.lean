-- Who may open which process on the DSP. GETINFO decides which node may use a
-- channel, INIT decides which process a session may open there, and a query
-- for capabilities may change the answer of both.
import PlatformKernel.Sessions

namespace virtual_fastrpc.access_control

open virtual_fastrpc.sessions keyed step_runs

/-! ## The rule -/

/-- What the drivers promise of every OPEN message: an untrusted process, and a process on a
secure channel that came through the non-secure node, ask for an unsigned PD, and an unsigned
PD is asked for only where it is supported. -/
def Allowed (c : Config) (m : OpenMsg) : Prop :=
  (m.untrusted_process = true → asks_unsigned c m.attrs = true) ∧
  (m.dev_minor = .MINOR_NUM_DEV → m.secure = true → asks_unsigned c m.attrs = true) ∧
  (asks_unsigned c m.attrs = true → m.unsigned_support = true)

/-- A session of the non-secure node is on a secure channel only when that supports unsigned
PDs. -/
def InPlace (s : Apps) (f : File) : Prop :=
  f.domain ≠ -1 → f.dev_minor = .MINOR_NUM_DEV → (s.channel f.domain.toNat).secure = true →
    (s.channel f.domain.toNat).unsigned_support = true

/-- The support of a secure channel comes from its cache, so it does not change again. -/
structure Guarded (c : Config) (s : Apps) : Prop where
  opens : ∀ m ∈ s.opens, Allowed c m
  bound : ∀ f ∈ s.drivers, InPlace s f
  cached : ∀ d, (s.channel d).secure = true → (s.channel d).unsigned_support = true →
    (s.channel d).is_cached = true

theorem guarded_init (c : Config) : Guarded c (init c) where
  opens := fun _ hm => absurd hm List.not_mem_nil
  bound := fun _ hf => absurd hf List.not_mem_nil
  cached := by
    intro d hsec huns
    simp [init, channel_init] at hsec huns
    omega

/-! ## The steps -/

/-- One session changes, and it is still where it may be. -/
theorem Guarded.setFile {c : Config} {s t : Apps} (h : Guarded c s) {v : Nat} {f' : File}
    (ht : t.drivers = update File.ptr s.drivers v (fun _ => f')) (hc : t.channel = s.channel)
    (ho : ∀ m ∈ t.opens, Allowed c m) (hf' : InPlace s f') : Guarded c t := by
  refine ⟨ho, fun g hg => ?_, by rw [hc]; exact h.cached⟩
  unfold InPlace
  rw [ht] at hg
  rw [hc]
  rcases mem_update.mp hg with ⟨hg, _⟩ | ⟨_, _, _, rfl⟩
  · exact h.bound g hg
  · exact hf'

theorem Guarded.again {c : Config} {s : Apps} (h : Guarded c s) {v : Nat} {f : File}
    (hf : f ∈ s.drivers) : Guarded c (s.setFile v f) :=
  h.setFile rfl rfl h.opens (h.bound f hf)

theorem Guarded.setup {c : Config} {s : Apps} {v : Nat} {f : File} {r : Done} (h : Guarded c s)
    (hf : s.file v = some f) (hs : Setup c s f r) : Guarded c (r.apps.setFile v r.file) := by
  obtain ⟨usage, hu⟩ := hs.apps
  refine @Guarded.setFile c s _ h v r.file (by rw [hu]; rfl) (by rw [hu]; rfl) ?_ ?_
  · intro m hm
    rw [hu] at hm
    exact h.opens m hm
  · intro hdom hdev hsec
    rw [hs.dev_minor] at hdev
    rcases hs.bound with ⟨hd, _⟩ | ⟨_, _, d, _, hd, hnode, _⟩
    · rw [hd] at hdom hsec ⊢
      exact h.bound f (mem_of_lookup hf) hdom hdev hsec
    · -- GETINFO has just looked at the node and the channel
      rw [hd] at hsec ⊢
      simp only [Int.toNat_natCast] at hsec ⊢
      simpa [needs_secure_node, hdev, hsec] using hnode

/-- The checks of INIT, and the one that GETINFO made before, are enough for the rule. -/
theorem Guarded.allowed {c : Config} {s : Apps} {f g : File} {u : InitAttrs}
    (h : Guarded c s) (hf : f ∈ s.drivers) (hm : MayOpen c s f g u) :
    Allowed c (openMsg s g u.attrs) := by
  obtain ⟨n, rfl⟩ := hm.file
  have hpos := hm.domain_pos
  have hrefused := hm.not_refused
  have hbound := h.bound f hf (by omega)
  unfold pd_refused at hrefused
  refine ⟨hm.trusted, ?_, ?_⟩
  · intro hdev hsec
    have huns := hbound hdev hsec
    simp only [openMsg] at hdev hsec huns ⊢
    simpa [hdev, hsec, huns] using hrefused
  · intro hask
    simp only [openMsg] at hask ⊢
    by_cases huns : (s.channel f.domain.toNat).unsigned_support = true
    · exact huns
    · simp [huns, hask] at hrefused

theorem Guarded.filled {c : Config} {s : Apps} (h : Guarded c s) {f : File} {d : Nat}
    {caps : Nat → BitVec 32} (hd : (s.channel d).is_cached = false) :
    Guarded c (filled c s f d caps) := by
  unfold sessions.filled
  refine ⟨h.opens, fun g hg hdom hdev hsec => ?_, fun e hsec huns => ?_⟩
  · by_cases hgd : g.domain.toNat = d
    · -- a secure channel with such a session is cached already
      rw [hgd, setChannel_self] at hsec
      have hold := h.bound g hg hdom hdev (by rw [hgd]; exact hsec)
      have := h.cached g.domain.toNat (by rw [hgd]; exact hsec) hold
      rw [hgd, hd] at this
      cases this
    · rw [setChannel_ne hgd] at hsec ⊢
      exact h.bound g hg hdom hdev hsec
  · by_cases hed : e = d
    · subst hed
      rw [setChannel_self]
    · rw [setChannel_ne hed] at hsec huns ⊢
      exact h.cached e hsec huns

/-- An answer to a user, and the same session, change nothing here. -/
theorem Guarded.answer {c : Config} {s : Apps} (h : Guarded c s) (copy_out : Bool) (a : Answer) :
    Guarded c (s.answer copy_out a) := by
  unfold Apps.answer
  split
  · exact ⟨h.opens, h.bound, h.cached⟩
  · exact h

theorem Guarded.cons_open {c : Config} {s : Apps} (h : Guarded c s) {m : OpenMsg}
    (hm : Allowed c m) : ∀ m' ∈ m :: s.opens, Allowed c m' := by
  intro m' hmem
  rcases List.mem_cons.mp hmem with rfl | hmem
  · exact hm
  · exact h.opens m' hmem

theorem step_guarded {c : Config} (s : Apps) (a : Act) (t : Apps) (h : Guarded c s)
    (ht : step c s a = some t) : Guarded c t := by
  cases step_effect ht with
  | open_node _ =>
    refine ⟨h.opens, fun g hg hdom => ?_, h.cached⟩
    rcases List.mem_cons.mp hg with rfl | hg
    · exact absurd rfl hdom
    · exact h.bound g hg hdom
  | setup hf hs => exact h.setup hf hs
  | refused hf _ =>
    have hin := h.bound _ (mem_of_lookup hf)
    exact h.setFile rfl rfl h.opens hin
  | not_accepted hf hm ho =>
    have hin := h.bound _ (mem_of_lookup hf)
    have hall := h.allowed (mem_of_lookup hf) hm
    obtain ⟨n, rfl⟩ := hm.file
    refine h.setFile rfl rfl ?_ hin
    rcases ho with rfl | rfl
    · exact h.opens
    · exact h.cons_open hall
  | accepted hf hm _ hg' =>
    have hin := h.bound _ (mem_of_lookup hf)
    have hall := h.allowed (mem_of_lookup hf) hm
    obtain ⟨n, rfl⟩ := hm.file
    refine h.setFile rfl rfl (h.cons_open hall) ?_
    subst hg'
    split <;> exact hin
  | answered hf _ => exact (h.answer _ _).again (by simpa using mem_of_lookup hf)
  | filled hf _ _ hc =>
    exact ((h.filled hc).answer _ _).again (by simpa using mem_of_lookup hf)
  | release _ =>
    exact ⟨h.opens, fun g hg => h.bound g (mem_remove.mp hg).1, h.cached⟩
  | ssr d n up =>
    refine ⟨h.opens, fun g hg => ?_, fun e => ?_⟩
    · unfold InPlace
      rw [channel_ssr]
      exact h.bound g hg
    · rw [channel_ssr]
      exact h.cached e

/-! ## The law -/

/-- In every run of either driver, every OPEN message keeps the rule with the marks of its
session and the flags of its channel at the moment it is sent. -/
theorem every_open_is_allowed {c : Config} {s : Apps} (hr : Reachable (step c) (init c) s) :
    ∀ m ∈ s.opens, Allowed c m :=
  (hr.inv (Guarded c) step_guarded (guarded_init c)).opens

/-- A process of the non-secure node on a secure channel, after the channel was found to
support unsigned PDs. -/
theorem an_unsigned_open_on_a_secure_channel :
    ∃ s, run (step (sampleConfig .hybrid)) (init (sampleConfig .hybrid))
        [.open_node 1 .MINOR_NUM_SECURE_DEV 50, .open_node 2 .MINOR_NUM_DEV 60,
          .ioctl 1 (.getinfo true 0 ⟨50, true, true⟩ true),
          .ioctl 1 (.get_dsp_info true 0 1 (.reply 0 fun _ => 1) true),
          .ioctl 2 (.getinfo true 0 ⟨60, true, true⟩ true),
          .ioctl 2 (.init true ⟨.FASTRPC_INIT_CREATE, 8, 0, 0⟩ ⟨true, true, .reply 0 11⟩)] =
        some s ∧
      s.opens = [⟨0, 8, false, .MINOR_NUM_DEV, true, true⟩] ∧
      ∀ m ∈ s.opens, Allowed (sampleConfig .hybrid) m := by
  refine ⟨_, rfl, by decide, ?_⟩
  exact every_open_is_allowed ⟨[.open_node 1 .MINOR_NUM_SECURE_DEV 50,
    .open_node 2 .MINOR_NUM_DEV 60, .ioctl 1 (.getinfo true 0 ⟨50, true, true⟩ true),
    .ioctl 1 (.get_dsp_info true 0 1 (.reply 0 fun _ => 1) true),
    .ioctl 2 (.getinfo true 0 ⟨60, true, true⟩ true),
    .ioctl 2 (.init true ⟨.FASTRPC_INIT_CREATE, 8, 0, 0⟩ ⟨true, true, .reply 0 11⟩)], rfl⟩

end virtual_fastrpc.access_control
