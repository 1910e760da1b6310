-- The cached capabilities of the DSP domains. A request names the domain whose
-- cache it reads and fills, and the message to the backend asks for the domain
-- of the session.
import PlatformKernel.Sessions

namespace virtual_fastrpc.capabilities

open virtual_fastrpc.sessions keyed step_runs

/-! ## The cache and the replies -/

/-- The cache of channel `d` holds what the backend replied for domain `d`, and so do the
capabilities that users got for it. -/
def CachesReply (c : Config) (s : Apps) (d : Nat) : Prop :=
  ∃ r ∈ s.replies, r.domain = d ∧ (s.channel d).dsp_attributes = as_cached c r.dsp_caps ∧
    (s.channel d).unsigned_support = (r.dsp_caps UNSIGNED_PD_SUPPORT != 0) ∧
    ∀ a ∈ s.answers, a.domain = d → a.attribute_ID < c.FASTRPC_MAX_DSP_ATTRIBUTES →
      a.capability = as_cached c r.dsp_caps a.attribute_ID

/-- A query that may fill a cache comes from a session that is bound to the domain of that
cache. -/
def AsksForItsOwn (c : Config) (s : Apps) : Act → Prop
  | .ioctl v (.get_dsp_info _ domain attribute_ID _ _) => ∀ f, s.file v = some f →
    domain < c.num_channels → attribute_ID < c.FASTRPC_MAX_DSP_ATTRIBUTES →
    (s.channel domain).is_cached = false → f.domain = domain
  | _ => True

structure Caches (c : Config) (s : Apps) : Prop where
  cache : ∀ d, (s.channel d).is_cached = true → CachesReply c s d
  answers : ∀ a ∈ s.answers, a.attribute_ID < c.FASTRPC_MAX_DSP_ATTRIBUTES →
    (s.channel a.domain).is_cached = true

/-- A change that leaves the cached fields of the channels, the replies and the answers. -/
theorem Caches.frame {c : Config} {s t : Apps} (h : Caches c s)
    (hc : ∀ d, (t.channel d).is_cached = (s.channel d).is_cached ∧
      (t.channel d).dsp_attributes = (s.channel d).dsp_attributes ∧
      (t.channel d).unsigned_support = (s.channel d).unsigned_support)
    (hr : t.replies = s.replies) (ha : t.answers = s.answers) : Caches c t := by
  refine ⟨fun d hd => ?_, fun a hm hattr => ?_⟩
  · obtain ⟨h1, h2, h3⟩ := hc d
    rw [h1] at hd
    obtain ⟨r, hrm, hdom, hattrs, huns, hans⟩ := h.cache d hd
    refine ⟨r, by rw [hr]; exact hrm, hdom, h2.trans hattrs, h3.trans huns, ?_⟩
    rw [ha]
    exact hans
  · rw [ha] at hm
    rw [(hc a.domain).1]
    exact h.answers a hm hattr

/-- An answer that comes from the cache of its channel. -/
theorem Caches.answer {c : Config} {s : Apps} (h : Caches c s) (copy_out : Bool) {a : Answer}
    (ha : a.attribute_ID < c.FASTRPC_MAX_DSP_ATTRIBUTES → (s.channel a.domain).is_cached = true ∧
      a.capability = (s.channel a.domain).dsp_attributes a.attribute_ID) :
    Caches c (s.answer copy_out a) := by
  unfold Apps.answer
  split
  · refine ⟨fun d hd => ?_, fun b hb hattr => ?_⟩
    · obtain ⟨r, hrm, hdom, hattrs, huns, hans⟩ := h.cache d hd
      refine ⟨r, hrm, hdom, hattrs, huns, fun b hb hbd hattr => ?_⟩
      rcases List.mem_cons.mp hb with rfl | hb
      · rw [← hattrs, ← hbd]
        exact (ha hattr).2
      · exact hans b hb hbd hattr
    · rcases List.mem_cons.mp hb with rfl | hb
      · exact (ha hattr).1
      · exact h.answers b hb hattr
  · exact h

/-- A query of a session that is bound to the domain fills the cache with a reply for it. -/
theorem Caches.filled {c : Config} {s : Apps} (h : Caches c s) {f : File} {d : Nat}
    {caps : Nat → BitVec 32} (hf : f.domain = d) (hd : (s.channel d).is_cached = false) :
    Caches c (filled c s f d caps) := by
  unfold sessions.filled
  refine ⟨fun e he => ?_, fun a ha hattr => ?_⟩
  · by_cases hed : e = d
    · subst hed
      refine ⟨⟨f.domain, caps⟩, List.mem_cons_self, hf, ?_, ?_, ?_⟩
      · rw [setChannel_self]
      · rw [setChannel_self]
      · -- no user got a capability of this domain before
        intro a ha had hattr
        have := h.answers a ha hattr
        rw [had, hd] at this
        cases this
    · rw [setChannel_ne hed] at he
      obtain ⟨r, hrm, hdom, hattrs, huns, hans⟩ := h.cache e he
      refine ⟨r, List.mem_cons_of_mem _ hrm, hdom, ?_, ?_, hans⟩
      · rw [setChannel_ne hed]
        exact hattrs
      · rw [setChannel_ne hed]
        exact huns
  · by_cases hed : a.domain = d
    · rw [hed, setChannel_self]
    · rw [setChannel_ne hed]
      exact h.answers a ha hattr

theorem step_caches {c : Config} (s : Apps) (a : Act) (t : Apps) (h : Caches c s)
    (hok : AsksForItsOwn c s a) (ht : step c s a = some t) : Caches c t := by
  cases step_effect ht with
  | open_node _ => exact h.frame (fun _ => ⟨rfl, rfl, rfl⟩) rfl rfl
  | setup _ hs =>
    obtain ⟨usage, hu⟩ := hs.apps
    exact h.frame (fun _ => by rw [hu]; exact ⟨rfl, rfl, rfl⟩) (by rw [hu]; rfl) (by rw [hu]; rfl)
  | refused _ _ => exact h.frame (fun _ => ⟨rfl, rfl, rfl⟩) rfl rfl
  | not_accepted _ _ _ => exact h.frame (fun _ => ⟨rfl, rfl, rfl⟩) rfl rfl
  | accepted _ _ _ _ => exact h.frame (fun _ => ⟨rfl, rfl, rfl⟩) rfl rfl
  | answered _ hcap =>
    exact (h.answer _ hcap).frame (fun _ => ⟨rfl, rfl, rfl⟩) rfl rfl
  | @filled _ _ _ _ _ caps hf hd ha hc =>
    have hfill : Caches c (sessions.filled c s _ _ caps) := h.filled (hok _ hf hd ha hc) hc
    refine (hfill.answer _ (fun _ => ?_)).frame (fun _ => ⟨rfl, rfl, rfl⟩) rfl rfl
    unfold sessions.filled
    rw [setChannel_self]
    exact ⟨rfl, rfl⟩
  | release _ => exact h.frame (fun _ => ⟨rfl, rfl, rfl⟩) rfl rfl
  | ssr d n up =>
    refine h.frame (fun e => ?_) rfl rfl
    rw [channel_ssr]
    exact ⟨rfl, rfl, rfl⟩

/-! ## The laws -/

/-- In every run in which a query that may fill the cache of a domain comes from a session
bound to that domain: what the cache of a domain holds is a reply of the backend for that
domain, and every capability of the DSP that a user got for the domain is of the same
reply. -/
theorem the_cache_is_a_reply_for_its_domain {c : Config} {s : Apps}
    (hr : ReachableUnder (step c) (AsksForItsOwn c) (init c) s) :
    (∀ d, (s.channel d).is_cached = true → CachesReply c s d) ∧
    ∀ a ∈ s.answers, a.attribute_ID < c.FASTRPC_MAX_DSP_ATTRIBUTES →
      (s.channel a.domain).is_cached = true := by
  have hinit : Caches c (init c) := by
    refine ⟨fun d hd => ?_, fun a ha => absurd ha List.not_mem_nil⟩
    cases hd
  have h : Caches c s := hr.inv (Caches c) step_caches hinit
  exact ⟨h.cache, h.answers⟩

/-- A session on domain 3 asks for the capabilities of domain 3. -/
theorem the_cache_of_a_domain_is_filled :
    ∃ s, run (step (sampleConfig .virtio)) (init (sampleConfig .virtio))
        [.open_node 1 .MINOR_NUM_DEV 50, .ioctl 1 (.getinfo true 3 ⟨50, true, true⟩ true),
          .ioctl 1 (.get_dsp_info true 3 1 (.reply 0 fun _ => 7) true)] = some s ∧
      s.answers = [⟨3, 1, 7⟩] ∧ CachesReply (sampleConfig .virtio) s 3 := by
  refine ⟨_, rfl, rfl, ?_⟩
  refine (the_cache_is_a_reply_for_its_domain (c := sampleConfig .virtio) ?_).1 3 rfl
  refine ⟨[.open_node 1 .MINOR_NUM_DEV 50, .ioctl 1 (.getinfo true 3 ⟨50, true, true⟩ true),
    .ioctl 1 (.get_dsp_info true 3 1 (.reply 0 fun _ => 7) true)], ?_, rfl⟩
  refine .cons trivial rfl ?_
  refine .cons trivial rfl ?_
  refine ⟨fun f hf _ _ _ => ?_, fun _ _ => trivial⟩
  cases hf
  rfl

/-- A session on domain 0 asks for the capabilities of domain 3: in both drivers the cache of
domain 3, and the user, get what the backend replied for domain 0. -/
theorem the_cache_may_hold_another_domain :
    let Mixes : Driver → Prop := fun d =>
      ∃ s, run (step (sampleConfig d)) (init (sampleConfig d))
          [.open_node 1 .MINOR_NUM_SECURE_DEV 50,
            .ioctl 1 (.getinfo true 0 ⟨50, true, true⟩ true),
            .ioctl 1 (.get_dsp_info true 3 1 (.reply 0 fun _ => 0) true)] = some s ∧
        (s.channel 3).is_cached = true ∧ (s.channel 3).unsigned_support = false ∧
        s.answers = [⟨3, 1, 0⟩] ∧ (∀ r ∈ s.replies, r.domain = 0) ∧
        ¬ CachesReply (sampleConfig d) s 3
    Mixes .virtio ∧ Mixes .hybrid := by
  intro Mixes
  refine ⟨⟨_, rfl, rfl, rfl, rfl, ?_, ?_⟩, ⟨_, rfl, rfl, rfl, rfl, ?_, ?_⟩⟩
  · intro r hr
    rcases List.mem_singleton.mp hr with rfl
    rfl
  · rintro ⟨r, hr, hd, _⟩
    rcases List.mem_singleton.mp hr with rfl
    cases hd
  · intro r hr
    rcases List.mem_singleton.mp hr with rfl
    rfl
  · rintro ⟨r, hr, hd, _⟩
    rcases List.mem_singleton.mp hr with rfl
    cases hd

end virtual_fastrpc.capabilities
