-- The two limits that the drivers declare: MAX_CACHED_BUFS buffers in the cache of
-- a session, and MAX_PENDING_CTX_PER_SESSION active contexts for a user call. Both
-- checks compare with `>`, so both let one more in.
import PlatformKernel.BufferPool
import PlatformKernel.ActiveCtxs

namespace virtual_fastrpc.declared_limits

open virtual_fastrpc.buffers (BufType)
open virtual_fastrpc.smmu_maps (MAX_CACHE_BUF_SIZE MAX_CACHED_BUFS)
open virtual_fastrpc.buffer_pool keyed step_runs

/-! ## The cache -/

/-- The operations that the requests of a session make on its buffers, in any order. -/
inductive PoolAct
  | buf_alloc (size : Nat) (no_kernel_mapping : Bool) (ty : BufType) (e : AllocEnv)
  /-- An owner frees its buffer. -/
  | buf_free (id : Nat) (cache : Bool)
  | cached_buf_list_free
  | install_hdrs (pers_hdr_buf num_pers_hdrs : Nat)
  | kfree_hdr_bufs
  deriving DecidableEq, Repr

def poolStep (d : Driver) (p : Pool) : PoolAct → Option Pool
  | .buf_alloc size no_kernel_mapping ty e => some (buf_alloc d p size no_kernel_mapping ty e).1
  | .buf_free id cache =>
    if id ∈ p.cached_bufs then none else (p.buf id).map (fun b => buf_free d p b cache)
  | .cached_buf_list_free => some (cached_buf_list_free d p)
  | .install_hdrs pers_hdr_buf num_pers_hdrs =>
    if d = .hybrid then some (install_hdrs p pers_hdr_buf num_pers_hdrs) else none
  | .kfree_hdr_bufs => if d = .hybrid then some (kfree_hdr_bufs p) else none

/-- The buffer may go to the cache, for all that the buffer itself says. -/
def cacheable (d : Driver) (b : Buf) (cache : Bool) : Bool :=
  cache && decide (b.size < MAX_CACHE_BUF_SIZE) && !(d == .hybrid && b.pers_hdr_in_use)

/-- No buffer that may be cached is freed while the cache has exactly its limit. -/
def NotAtLimit (d : Driver) (p : Pool) : PoolAct → Prop
  | .buf_free id cache => ∀ b, p.buf id = some b → cacheable d b cache = true →
    p.num_cached_buf ≠ MAX_CACHED_BUFS
  | _ => True

def WithinLimit (p : Pool) : Prop := p.cached_bufs.length ≤ MAX_CACHED_BUFS

/-- `num_cached_buf` is the length of the list. -/
def CountsCache (p : Pool) : Prop := p.num_cached_buf = p.cached_bufs.length

variable {d : Driver} {p p' : Pool}

theorem buf_alloc_cache {size : Nat} {nomap : Bool} {ty : BufType} {e : AllocEnv}
    (h : CountsCache p) : CountsCache (buf_alloc d p size nomap ty e).1 ∧
      (buf_alloc d p size nomap ty e).1.cached_bufs.length ≤ p.cached_bufs.length := by
  rcases ha : buf_alloc d p size nomap ty e with ⟨q, r⟩
  rcases buf_alloc_cases ha with ⟨_, rfl⟩ | ⟨id, _, _, hg⟩ | ⟨b, _, hf, _, rfl⟩ | ⟨_, rfl⟩
  · exact ⟨h, Nat.le_refl _⟩
  · obtain ⟨_, _, rfl, _⟩ := get_persistent_some hg
    exact ⟨h, Nat.le_refl _⟩
  · obtain ⟨hin, _⟩ := find_cached_some hf
    have hlen : (p.cached_bufs.erase b.id).length + 1 = p.cached_bufs.length := by
      have := List.length_pos_of_mem hin
      rw [List.length_erase_of_mem hin]
      omega
    constructor
    · show p.num_cached_buf - 1 = ((p.cached_bufs.erase b.id).length : Int)
      unfold CountsCache at h
      omega
    · show (p.cached_bufs.erase b.id).length ≤ _
      omega
  · exact ⟨h, Nat.le_refl _⟩

theorem buf_free_cache (b : Buf) (cache : Bool) (h : CountsCache p) :
    CountsCache (buf_free d p b cache) ∧
      (buf_free d p b cache).cached_bufs.length =
        p.cached_bufs.length + if cacheable d b cache ∧ p.num_cached_buf ≤ MAX_CACHED_BUFS then 1
          else 0 := by
  rcases buf_free_cases d p b cache with ⟨hd, huse, he⟩ | ⟨hplain, hc, he⟩ | ⟨hplain, hc, he⟩
  · have hno : cacheable d b cache = false := by simp [cacheable, hd, huse]
    rw [he, hno]
    exact ⟨h, rfl⟩
  · have hyes : cacheable d b cache = true ∧ p.num_cached_buf ≤ MAX_CACHED_BUFS := by
      simp only [caches, Bool.and_eq_true, decide_eq_true_eq, Bool.not_eq_true',
        decide_eq_false_iff_not, not_lt] at hc
      refine ⟨?_, hc.2⟩
      cases d <;> simp [cacheable, hc.1, hplain]
    rw [he, if_pos hyes]
    refine ⟨?_, rfl⟩
    show p.num_cached_buf + 1 = ((b.id :: p.cached_bufs).length : Int)
    rw [h]
    simp
  · have hno : ¬(cacheable d b cache = true ∧ p.num_cached_buf ≤ MAX_CACHED_BUFS) := by
      rintro ⟨hyes, hle⟩
      simp only [cacheable, Bool.and_eq_true] at hyes
      simp only [caches, hyes.1, decide_eq_false (not_lt.mpr hle)] at hc
      cases hc
    rw [he, if_neg hno]
    exact ⟨h, rfl⟩

/-- The turn that empties the cache takes one buffer off, and puts none back. -/
theorem cached_buf_list_free_cache (h : CountsCache p) :
    CountsCache (cached_buf_list_free d p) ∧
      (cached_buf_list_free d p).cached_bufs.length ≤ p.cached_bufs.length := by
  rcases hc : p.cached_bufs with _ | ⟨id, rest⟩
  · have he : cached_buf_list_free d p = p := by simp [cached_buf_list_free, hc]
    rw [he, hc]
    exact ⟨h, Nat.le_refl _⟩
  · have hq : CountsCache
      { p with cached_bufs := rest, num_cached_buf := p.num_cached_buf - 1 } := by
      show p.num_cached_buf - 1 = (rest.length : Int)
      rw [h, hc]
      simp
    rcases hb : p.buf id with _ | b
    · have he : cached_buf_list_free d p =
          { p with cached_bufs := rest, num_cached_buf := p.num_cached_buf - 1 } := by
        have hnone : ({ p with
            cached_bufs := rest, num_cached_buf := p.num_cached_buf - 1 } : Pool).buf id
              = none := hb
        simp only [cached_buf_list_free, hc, hnone]
      rw [he]
      exact ⟨hq, Nat.le_succ _⟩
    · rw [cached_buf_list_free_eq hc hb]
      obtain ⟨hcount, hlen⟩ := buf_free_cache (d := d) b false hq
      refine ⟨hcount, ?_⟩
      rw [hlen]
      simp [cacheable]

theorem poolStep_counts (s : Pool) (a : PoolAct) (t : Pool) (h : CountsCache s)
    (ht : poolStep d s a = some t) : CountsCache t := by
  cases a with
  | buf_alloc size nomap ty e =>
    cases ht
    exact (buf_alloc_cache h).1
  | buf_free id cache =>
    obtain ⟨_, ht⟩ := Option.ite_none_left_eq_some.mp ht
    obtain ⟨b, _, rfl⟩ := Option.map_eq_some_iff.mp ht
    exact (buf_free_cache b cache h).1
  | cached_buf_list_free =>
    cases ht
    exact (cached_buf_list_free_cache h).1
  | install_hdrs b n =>
    obtain ⟨_, ⟨⟩⟩ := Option.ite_none_right_eq_some.mp ht
    exact h
  | kfree_hdr_bufs =>
    obtain ⟨_, ⟨⟩⟩ := Option.ite_none_right_eq_some.mp ht
    exact h

/-- A step keeps the limit unless it frees a buffer to a cache that is at its limit. -/
theorem poolStep_within (s : Pool) (a : PoolAct) (t : Pool) (h : CountsCache s)
    (hlim : WithinLimit s) (ht : poolStep d s a = some t) :
    WithinLimit t ↔ NotAtLimit d s a := by
  unfold WithinLimit at hlim ⊢
  cases a with
  | buf_alloc size nomap ty e =>
    cases ht
    exact ⟨fun _ => trivial, fun _ => (buf_alloc_cache h).2.trans hlim⟩
  | buf_free id cache =>
    obtain ⟨_, ht⟩ := Option.ite_none_left_eq_some.mp ht
    obtain ⟨b, hb, rfl⟩ := Option.map_eq_some_iff.mp ht
    have hlen := (buf_free_cache (d := d) b cache h).2
    have hat : NotAtLimit d s (.buf_free id cache) ↔
        (cacheable d b cache = true → s.num_cached_buf ≠ MAX_CACHED_BUFS) := by
      simp [NotAtLimit, hb]
    rw [hlen, hat]
    unfold CountsCache at h
    split
    · rename_i hyes
      simp only [hyes.1, true_implies]
      omega
    · rename_i hno
      refine ⟨fun _ hc heq => hno ⟨hc, heq.le⟩, fun _ => by omega⟩
  | cached_buf_list_free =>
    cases ht
    exact ⟨fun _ => trivial, fun _ => (cached_buf_list_free_cache h).2.trans hlim⟩
  | install_hdrs b n =>
    obtain ⟨_, ⟨⟩⟩ := Option.ite_none_right_eq_some.mp ht
    exact ⟨fun _ => trivial, fun _ => hlim⟩
  | kfree_hdr_bufs =>
    obtain ⟨_, ⟨⟩⟩ := Option.ite_none_right_eq_some.mp ht
    exact ⟨fun _ => trivial, fun _ => hlim⟩

/-- The cache keeps its limit in a run exactly when no buffer is freed to it at the limit. -/
theorem cache_within_limit {as : List PoolAct} {t : Pool}
    (hr : run (poolStep d) Pool.init as = some t) :
    Always (poolStep d) WithinLimit Pool.init as ↔
      Meets (poolStep d) (NotAtLimit d) Pool.init as :=
  always_iff_meets CountsCache WithinLimit poolStep_counts poolStep_within rfl (Nat.zero_le _) hr

/-! ## The active contexts -/

open virtual_fastrpc.context_table virtual_fastrpc.active_ctxs

/-- The contexts on the two lists of a session. -/
def active (v : Nat) (s : Chan) : Nat :=
  (s.clst v).pending.length + (s.clst v).interrupted.length

/-- A context of session `v` between the check of context_alloc and its list. -/
def OnTheWay (v : Nat) (s : Chan) (p : Nat) (c : InvokeCtx) : Prop :=
  s.ctx p = some c ∧ c.vfl = v ∧ (c.phase = .built ∨ c.phase = .tabled)

/-- A call of a user on a dynamic handle. -/
def isUserCall (c : InvokeCtx) : Bool := !critical c.kernel_msg c.handle

/-- No context_alloc of session `v` fails after it has made its context, and a user call does not
make its check at the limit. Two calls of the session are between their check and their list at one
time only when neither is a user call: a user call makes its check when no call is on its way, also
none of the kernel or on a static handle, and no call makes its check while a user call is on its
way. -/
def Orderly (v : Nat) (s : Chan) (a : Act) : Prop :=
  NoFailedAlloc v s a ∧
    match a with
    | .alloc_begin _ vfl handle kernel_msg _ => vfl = v →
      (∀ q d, OnTheWay v s q d → isUserCall d = false ∧ critical kernel_msg handle = true) ∧
        (critical kernel_msg handle = false →
          active v s ≠ MAX_PENDING_CTX_PER_SESSION ∧ active v s < 2 ^ 32)
    | _ => True

/-- A user call on its way is alone, and there is room for it. -/
def RoomForIt (v : Nat) (s : Chan) : Prop :=
  ∀ p c, OnTheWay v s p c → isUserCall c = true →
    active v s < MAX_PENDING_CTX_PER_SESSION ∧ ∀ q d, OnTheWay v s q d → q = p

/-- No more contexts are active than before, and none is on its way that was not. -/
structure NoMore (v : Nat) (s t : Chan) : Prop where
  count : active v t ≤ active v s
  way : ∀ q d, OnTheWay v t q d → ∃ c, OnTheWay v s q c ∧ isUserCall c = isUserCall d

variable {v : Nat} {s t : Chan}

theorem RoomForIt.noMore (h : RoomForIt v s) (hn : NoMore v s t) : RoomForIt v t := by
  intro p d hd huser
  obtain ⟨c, hc, hcall⟩ := hn.way p d hd
  obtain ⟨hroom, halone⟩ := h p c hc (hcall.trans huser)
  refine ⟨hn.count.trans_lt hroom, fun q e he => ?_⟩
  obtain ⟨c', hc', _⟩ := hn.way q e he
  exact halone q c' hc'

theorem NoMore.refl (s : Chan) : NoMore v s s := ⟨Nat.le_refl _, fun _ c hc => ⟨c, hc, rfl⟩⟩

theorem NoMore.trans {u : Chan} (h : NoMore v s t) (h' : NoMore v t u) : NoMore v s u := by
  refine ⟨h'.count.trans h.count, fun q e he => ?_⟩
  obtain ⟨d, hd, hde⟩ := h'.way q e he
  obtain ⟨c, hc, hcd⟩ := h.way q d hd
  exact ⟨c, hc, hcd.trans hde⟩

/-- A context changes without coming on its way. -/
theorem NoMore.setCtx (s : Chan) (p : Nat) {f : InvokeCtx → InvokeCtx}
    (hf : ∀ x, (f x).ptr = x.ptr ∧ (f x).vfl = x.vfl ∧ isUserCall (f x) = isUserCall x)
    (hway : ∀ c, s.ctx p = some c → (f c).phase = .built ∨ (f c).phase = .tabled →
      c.phase = .built ∨ c.phase = .tabled) : NoMore v s (s.setCtx p f) := by
  refine ⟨Nat.le_refl _, ?_⟩
  rintro q d ⟨hd, hv, hph⟩
  by_cases hq : q = p
  · subst hq
    rw [ctx_setCtx_self (fun x => (hf x).1)] at hd
    obtain ⟨c, hc, rfl⟩ := Option.map_eq_some_iff.mp hd
    exact ⟨c, ⟨hc, (hf c).2.1.symm.trans hv, hway c hc hph⟩, (hf c).2.2.symm⟩
  · rw [ctx_setCtx_ne (fun x => (hf x).1) hq] at hd
    exact ⟨d, ⟨hd, hv, hph⟩, rfl⟩

theorem NoMore.setClst {w : Nat} {g : CtxLst → CtxLst}
    (hg : v = w → (g (s.clst v)).pending.length + (g (s.clst v)).interrupted.length ≤ active v s) :
    NoMore v s (s.setClst w g) := by
  refine ⟨?_, fun q d hd => ⟨d, hd, rfl⟩⟩
  unfold active
  by_cases hv : v = w
  · subst hv
    rw [clst_setClst_self]
    exact hg rfl
  · rw [clst_setClst_ne hv]

/-- The lists after the node of a context went out of them. -/
theorem hlist_del_length (p : Nat) (l : CtxLst) :
    (hlist_del p l).pending.length + (hlist_del p l).interrupted.length ≤
      l.pending.length + l.interrupted.length :=
  Nat.add_le_add List.length_erase_le List.length_erase_le

theorem noMore_response (sh : AdsprpcShared) (s : Chan) (r : RspData) :
    NoMore v s (fastrpc_handle_rpc_response sh s r).1 := by
  rcases response_cases sh s r with ⟨c, flags, early, _, _, _, he⟩ | ⟨_, n, he⟩
  · rw [he]
    refine notify_user_silent (P := NoMore v s) ?_ ?_ (NoMore.refl s)
    · intro t f hf ht
      refine ht.trans (NoMore.setCtx t _ ?_ ?_)
      · intro x
        obtain ⟨hk, hh⟩ := hf.2 x
        exact ⟨(hf.1 x).1, (hf.1 x).2.1, by simp [isUserCall, hk, hh]⟩
      · intro x _ hph
        rw [(hf.1 x).2.2.2.2] at hph
        exact hph
    · intro t ht
      exact ht.trans (NoMore.setClst (fun _ => Nat.le_refl _))
  · rw [he]
    exact ⟨Nat.le_refl _, fun q d hd => ⟨d, hd, rfl⟩⟩

theorem noMore_alloc_entry {c : InvokeCtx} (hc : s.ctx c.ptr = some c) (hp : c.phase = .built) :
    NoMore v s (context_alloc_entry s c) := by
  have hbuilt : ∀ x, s.ctx c.ptr = some x → x.phase = .built ∨ x.phase = .tabled := by
    intro x hx
    rw [hc] at hx
    cases hx
    exact Or.inl hp
  unfold context_alloc_entry
  dsimp only
  split
  · rename_i ii _
    have hset := NoMore.setCtx (v := v) s c.ptr
      (f := .enter (make_ctxid (s.jobid + 1) ii c.isasyncjob))
      (fun _ => ⟨rfl, rfl, rfl⟩) (fun x hx _ => hbuilt x hx)
    exact hset.trans ⟨Nat.le_refl _, fun q d hd => ⟨d, hd, rfl⟩⟩
  · have hset := NoMore.setCtx (v := v) s c.ptr (f := .goto .dying)
      (fun _ => ⟨rfl, rfl, rfl⟩) (fun x hx _ => hbuilt x hx)
    exact hset.trans ⟨Nat.le_refl _, fun q d hd => ⟨d, hd, rfl⟩⟩

theorem noMore_free_entry {c : InvokeCtx} : NoMore v s (context_free_entry s c) := by
  have hset := NoMore.setCtx (v := v) s c.ptr (f := .goto .unlinked) (fun _ => ⟨rfl, rfl, rfl⟩)
    (by simp [InvokeCtx.goto])
  refine hset.trans ⟨?_, fun q d hd => ⟨d, ?_, rfl⟩⟩
  · unfold active
    rw [clst_free_entry]
    exact Nat.le_refl _
  · unfold OnTheWay at hd ⊢
    rw [ctx_free_entry] at hd
    exact hd

theorem noMore_free_list {c : InvokeCtx} : NoMore v s (context_free_list s c) := by
  unfold context_free_list
  split
  · exact NoMore.setCtx s c.ptr (fun _ => ⟨rfl, rfl, rfl⟩) (by simp [InvokeCtx.goto])
  · have hset := NoMore.setCtx (v := v) s c.ptr
      (f := fun x => { x with hn := .unhashed, phase := .delisted }) (fun _ => ⟨rfl, rfl, rfl⟩)
      (by simp)
    refine hset.trans (NoMore.setClst fun hv => ?_)
    exact hlist_del_length c.ptr _

/-- A context that moves from one list to the other is counted once before and once after. -/
theorem noMore_moved {c : InvokeCtx} {f : InvokeCtx → InvokeCtx} {g : CtxLst → CtxLst}
    (hf : ∀ x, (f x).ptr = x.ptr ∧ (f x).vfl = x.vfl ∧ isUserCall (f x) = isUserCall x)
    (hph : ∀ x, (f x).phase = x.phase)
    (hg : c.vfl = v → (g (s.clst v)).pending.length + (g (s.clst v)).interrupted.length ≤
      active v s) :
    NoMore v s ((s.setCtx c.ptr f).setClst c.vfl g) := by
  refine (NoMore.setCtx s c.ptr hf fun x _ hx => ?_).trans (NoMore.setClst fun hv => hg hv.symm)
  rwa [hph x] at hx

theorem noMore_save_interrupted {c : InvokeCtx} (h : Counted v s) (hc : s.ctx c.ptr = some c)
    (hn : c.hn = .pending) : NoMore v s (context_save_interrupted s c) := by
  refine noMore_moved (fun _ => ⟨rfl, rfl, rfl⟩) (fun _ => rfl) fun hv => ?_
  have hin : c.ptr ∈ (s.clst v).pending := (h.pending _).mpr ⟨c, hc, hv, hn⟩
  have hpos := List.length_pos_of_mem hin
  have hle := @List.length_erase_le _ _ c.ptr (s.clst v).interrupted
  simp only [hlist_del, List.length_cons, List.length_erase_of_mem hin, active]
  omega

theorem noMore_restore_interrupted {c : InvokeCtx} (h : Counted v s) (hc : s.ctx c.ptr = some c)
    (hn : c.hn = .interrupted) : NoMore v s (context_restore_interrupted s c) := by
  refine noMore_moved (fun _ => ⟨rfl, rfl, rfl⟩) (fun _ => rfl) fun hv => ?_
  have hin : c.ptr ∈ (s.clst v).interrupted := (h.interrupted _).mpr ⟨c, hc, hv, hn⟩
  have hpos := List.length_pos_of_mem hin
  have hle := @List.length_erase_le _ _ c.ptr (s.clst v).pending
  simp only [hlist_del, List.length_cons, List.length_erase_of_mem hin, active]
  omega

/-- The check of a new call leaves room for each user call that is on its way. -/
theorem room_alloc_begin {sh : AdsprpcShared} {p vfl : Nat} {handle : BitVec 32}
    {kernel_msg isasyncjob : Bool} (h : RoomForIt v s) (hcount : Counted v s)
    (hord : Orderly v s (.alloc_begin p vfl handle kernel_msg isasyncjob))
    (ht : context_alloc_begin sh s p vfl handle kernel_msg isasyncjob = some t) :
      RoomForIt v t := by
  rcases context_alloc_begin_cases ht with rfl | ⟨hpass, hnone, rfl⟩
  · exact h
  intro q c hc huser
  obtain ⟨hc, hv, hph⟩ := hc
  by_cases hq : q = p
  · -- the new call itself: the check has found less than the limit
    subst hq
    cases (@lookup_cons_self _ InvokeCtx.ptr _ _).symm.trans hc
    obtain ⟨hway, hlim⟩ := hord.2 hv
    have hcrit : critical kernel_msg handle = false := by simpa [isUserCall] using huser
    obtain ⟨hne, hsmall⟩ := hlim hcrit
    have hnum : (s.clst vfl).num_active_ctxs.toNat = active v s := by
      have := hcount.count
      subst hv
      rw [this, BitVec.toNat_ofNat]
      exact Nat.mod_eq_of_lt hsmall
    have hle : ¬ MAX_PENDING_CTX_PER_SESSION < active v s := by
      intro hlt
      exact hpass ⟨by rw [hnum]; exact hlt, hcrit⟩
    refine ⟨?_, fun q' d hd => ?_⟩
    · show active v s < _
      omega
    · by_contra hq'
      have hold : s.ctx q' = some d := (lookup_cons_ne (fun he => hq' he.symm)).symm.trans hd.1
      have := (hway q' d ⟨hold, hd.2⟩).2
      rw [hcrit] at this
      cases this
  · have hold : s.ctx q = some c := (lookup_cons_ne (fun he => hq he.symm)).symm.trans hc
    obtain ⟨hroom, halone⟩ := h q c ⟨hold, hv, hph⟩ huser
    refine ⟨hroom, fun q' d hd => ?_⟩
    by_cases hq' : q' = p
    · -- a second call of the session does not make the check meanwhile
      subst hq'
      cases (@lookup_cons_self _ InvokeCtx.ptr _ _).symm.trans hd.1
      have := ((hord.2 hd.2.1).1 q c ⟨hold, hv, hph⟩).1
      rw [huser] at this
      cases this
    · have hold' : s.ctx q' = some d := (lookup_cons_ne (fun he => hq' he.symm)).symm.trans hd.1
      exact halone q' d ⟨hold', hd.2⟩

theorem active_alloc_list {c : InvokeCtx} : active v (context_alloc_list s c) =
    active v s + if c.vfl = v then 1 else 0 := by
  unfold active context_alloc_list
  by_cases hv : c.vfl = v
  · subst hv
    rw [clst_setClst_self, if_pos rfl]
    show ((s.clst c.vfl).pending.length + 1) + (s.clst c.vfl).interrupted.length = _
    omega
  · rw [clst_setClst_ne (fun he => hv he.symm), if_neg hv]
    rfl

theorem active_alloc_entry {c : InvokeCtx} : active v (context_alloc_entry s c) = active v s := by
  unfold context_alloc_entry
  dsimp only
  split <;> rfl

/-- A call that comes to its list leaves no user call on its way: it was the only one, or there
was none. -/
theorem room_alloc_list {c : InvokeCtx} (h : RoomForIt v s) (hc : s.ctx c.ptr = some c)
    (hp : c.phase = .tabled) : RoomForIt v (context_alloc_list s c) := by
  have hset := NoMore.setCtx (v := v) s c.ptr
    (f := fun x => { x with hn := .pending, phase := .live }) (fun _ => ⟨rfl, rfl, rfl⟩) (by simp)
  intro q d hd huser
  have hne : q ≠ c.ptr := by
    rintro rfl
    have hlive :=
      (ctx_setCtx_self (s := s) (f := fun x => { x with hn := .pending, phase := .live })
      (p := c.ptr) (fun _ => rfl)).symm.trans hd.1
    rw [hc] at hlive
    cases hlive
    simp at hd
    exact absurd hd.2.2 (by simp)
  obtain ⟨c', hc', hcall⟩ := hset.way q d hd
  obtain ⟨hroom, halone⟩ := h q c' hc' (hcall.trans huser)
  by_cases hv : c.vfl = v
  · exact absurd (halone c.ptr c ⟨hc, hv, Or.inr hp⟩).symm hne
  · refine ⟨?_, fun q' d' hd' => ?_⟩
    · rw [active_alloc_list, if_neg hv]
      exact hroom
    · obtain ⟨e, he, _⟩ := hset.way q' d' hd'
      exact halone q' e he

theorem step_room {sh : AdsprpcShared} (s : Chan) (a : Act) (t : Chan)
    (h : Counted v s ∧ RoomForIt v s) (hord : Orderly v s a) (ht : step sh s a = some t) :
    Counted v t ∧ RoomForIt v t := by
  refine ⟨step_counted v s a t h.1 hord.1 ht, ?_⟩
  cases a with
  | alloc_begin p vfl handle k b => exact room_alloc_begin h.2 h.1 hord ht
  | response r =>
    cases ht
    exact h.2.noMore (noMore_response sh s r)
  | alloc_fail p =>
    obtain ⟨c, _, _, rfl⟩ := onCtx_some ht
    exact h.2.noMore (NoMore.setCtx s _ (fun _ => ⟨rfl, rfl, rfl⟩) (by simp [InvokeCtx.goto]))
  | alloc_entry p =>
    obtain ⟨c, hc, hp, rfl⟩ := onCtx_some ht
    exact h.2.noMore (noMore_alloc_entry hc (by simpa using hp))
  | alloc_list p =>
    obtain ⟨c, hc, hp, rfl⟩ := onCtx_some ht
    exact room_alloc_list h.2 hc (by simpa using hp)
  | save_interrupted p =>
    obtain ⟨c, hc, hp, rfl⟩ := onCtx_some ht
    have hp : c.phase = .live ∧ c.hn = .pending := by simpa using hp
    exact h.2.noMore (noMore_save_interrupted h.1 hc hp.2)
  | restore_interrupted p =>
    obtain ⟨c, hc, hp, rfl⟩ := onCtx_some ht
    have hp : c.phase = .live ∧ c.hn = .interrupted := by simpa using hp
    exact h.2.noMore (noMore_restore_interrupted h.1 hc hp.2)
  | dtor p =>
    obtain ⟨c, _, _, rfl⟩ := onCtx_some ht
    have hset := NoMore.setCtx (v := v) s c.ptr
      (f := fun x => { x with hn := .unhashed, phase := .dying })
        (fun _ => ⟨rfl, rfl, rfl⟩) (by simp)
    exact h.2.noMore (hset.trans (NoMore.setClst fun _ => hlist_del_length c.ptr _))
  | free p =>
    obtain ⟨c, _, _, rfl⟩ := onCtx_some ht
    exact h.2.noMore (NoMore.setCtx s _ (fun _ => ⟨rfl, rfl, rfl⟩) (by simp [InvokeCtx.goto]))
  | free_entry p =>
    obtain ⟨c, _, _, rfl⟩ := onCtx_some ht
    exact h.2.noMore noMore_free_entry
  | free_list p =>
    obtain ⟨c, _, _, rfl⟩ := onCtx_some ht
    exact h.2.noMore noMore_free_list
  | free_end p =>
    obtain ⟨c, _, _, rfl⟩ := onCtx_some ht
    refine h.2.noMore ⟨Nat.le_refl _, fun q d hd => ?_⟩
    have hq : q ≠ c.ptr := by
      rintro rfl
      exact absurd (key_of_lookup hd.1) (mem_remove.mp (mem_of_lookup hd.1)).2
    exact ⟨d, ⟨(lookup_remove_ne hq).symm.trans hd.1, hd.2⟩, rfl⟩

/-- No context of the session is on its way. -/
def Idle (v : Nat) (s : Chan) : Prop := ∀ p c, ¬ OnTheWay v s p c

/-- A user call that the driver admits in a run of orderly steps finds room on the lists. -/
theorem active_within_limit {sh : AdsprpcShared} {s₀ : Chan} (hcount : Counted v s₀)
    (hidle : Idle v s₀) (hr : ReachableUnder (step sh) (Orderly v) s₀ s) {p : Nat} {c : InvokeCtx}
    (hc : s.ctx p = some c) (hv : c.vfl = v) (huser : isUserCall c = true)
    (ht : step sh s (.alloc_list p) = some t) : active v t ≤ MAX_PENDING_CTX_PER_SESSION := by
  have hinv := hr.inv (fun s => Counted v s ∧ RoomForIt v s) step_room
    ⟨hcount, fun q d hd _ => absurd hd (hidle q d)⟩
  obtain ⟨c', rfl, hc', hp, rfl⟩ := onCtx_at ht
  rw [hc] at hc'
  cases hc'
  obtain ⟨hroom, _⟩ := hinv.2 c.ptr c ⟨hc, hv, Or.inr (by simpa using hp)⟩ huser
  rw [active_alloc_list, if_pos hv]
  exact hroom

/-- One context_alloc of a user call that nothing interrupts, when it succeeds. -/
def oneAlloc (p v : Nat) (handle : BitVec 32) (isasyncjob : Bool) : List Act :=
  [.alloc_begin p v handle false isasyncjob, .alloc_entry p, .alloc_list p]

/-- When the count is exact, such a call keeps the limit unless it begins at the limit. -/
theorem one_alloc_within_limit {sh : AdsprpcShared} {p : Nat} {handle : BitVec 32}
    {isasyncjob : Bool} (hcount : CountsItsLists v s) (hsmall : active v s < 2 ^ 32)
    (hfresh : s.ctx p = none) (huser : critical false handle = false)
    (hr : run (step sh) s (oneAlloc p v handle isasyncjob) = some t) :
    active v t ≤ MAX_PENDING_CTX_PER_SESSION ↔ active v s ≠ MAX_PENDING_CTX_PER_SESSION := by
  obtain ⟨s₁, h₁, hr⟩ := Option.bind_eq_some_iff.mp hr
  obtain ⟨s₂, h₂, hr⟩ := Option.bind_eq_some_iff.mp hr
  obtain ⟨s₃, h₃, hr⟩ := Option.bind_eq_some_iff.mp hr
  cases hr
  have hnum : (s.clst v).num_active_ctxs.toNat = active v s := by
    rw [hcount, BitVec.toNat_ofNat]
    exact Nat.mod_eq_of_lt hsmall
  have hbegin : context_alloc_begin sh s p v handle false isasyncjob = some s₁ := h₁
  rcases context_alloc_begin_cases hbegin with rfl | ⟨hpass, _, rfl⟩
  · -- a rejected call has no context for the next step
    obtain ⟨c, hp, hc, _⟩ := onCtx_at h₂
    rw [hp, hfresh] at hc
    cases hc
  rw [hnum, huser] at hpass
  obtain ⟨c, _, hc, hbuilt, rfl⟩ := onCtx_at h₂
  obtain ⟨d, hdp, hd, htabled, rfl⟩ := onCtx_at h₃
  have hdv : d.vfl = v := by
    have hway : OnTheWay d.vfl _ d.ptr d := ⟨hd, rfl, Or.inr (by simpa using htabled)⟩
    obtain ⟨c', hc', _⟩ := (noMore_alloc_entry hc (by simpa using hbuilt)).way _ _ hway
    have hnew := hc'.1
    rw [hdp] at hnew
    cases (@lookup_cons_self _ InvokeCtx.ptr _ _).symm.trans hnew
    exact hc'.2.1.symm
  have hpass : ¬ MAX_PENDING_CTX_PER_SESSION < active v s := fun hlt => hpass ⟨hlt, rfl⟩
  rw [active_alloc_list, active_alloc_entry, if_pos hdv]
  show active v s + 1 ≤ _ ↔ _
  omega

/-! ## The laws -/

/-- The cache keeps its limit in a run exactly when no buffer is freed to it at the limit. The
user calls keep theirs in every orderly run, and one call alone keeps it exactly when it does not
begin at the limit. -/
theorem declared_limits_hold (sh : AdsprpcShared) :
    (∀ d as t, run (poolStep d) Pool.init as = some t →
      (Always (poolStep d) WithinLimit Pool.init as ↔
        Meets (poolStep d) (NotAtLimit d) Pool.init as)) ∧
    (∀ v s₀, Counted v s₀ → Idle v s₀ → ∀ s, ReachableUnder (step sh) (Orderly v) s₀ s →
      ∀ p c t, s.ctx p = some c → c.vfl = v → isUserCall c = true →
        step sh s (.alloc_list p) = some t → active v t ≤ MAX_PENDING_CTX_PER_SESSION) ∧
    (∀ v s p handle isasyncjob t, CountsItsLists v s → active v s < 2 ^ 32 → s.ctx p = none →
      critical false handle = false → run (step sh) s (oneAlloc p v handle isasyncjob) = some t →
        (active v t ≤ MAX_PENDING_CTX_PER_SESSION ↔ active v s ≠ MAX_PENDING_CTX_PER_SESSION)) :=
  ⟨fun _ _ _ hr => cache_within_limit hr,
    fun _ _ hcount hidle _ hr _ _ _ hc hv huser ht =>
      active_within_limit hcount hidle hr hc hv huser ht,
    fun _ _ _ _ _ _ hcount hsmall hfresh huser hr =>
      one_alloc_within_limit hcount hsmall hfresh huser hr⟩

def allOk : AllocEnv := ⟨true, true, true⟩

/-- Buffers are taken, and then all of them are freed to the cache. -/
def fillCache (n : Nat) : List PoolAct :=
  List.replicate n (.buf_alloc 4096 false .METADATA allOk) ++
    (List.range n).map (fun id => .buf_free id true)

/-- Calls of user threads of one session, one after the other. -/
def userCalls (n : Nat) : List Act := (List.range n).flatMap (fun p => oneAlloc p 0 30 false)

/-- One buffer in the cache, and one call. -/
theorem the_first_of_each_is_within :
    Always (poolStep .hybrid) WithinLimit Pool.init (fillCache 1) ∧
      ∃ t, run (step sampleShared) init (userCalls 1) = some t ∧
        active 0 t ≤ MAX_PENDING_CTX_PER_SESSION := by
  constructor
  · refine ((declared_limits_hold sampleShared).1 .hybrid (fillCache 1) _ rfl).mpr ?_
    refine Meets.cons trivial rfl (Meets.cons ?_ rfl trivial)
    intro b _ _
    decide
  · refine ⟨_, rfl, ?_⟩
    exact ((declared_limits_hold sampleShared).2.2 0 init 0 30 false _ rfl
      (by decide) rfl rfl rfl).mpr
      (by decide)

set_option maxRecDepth 20000 in
/-- 33 buffers in the cache of either driver, and 65 active calls of users. -/
theorem each_limit_admits_one_more :
    (¬ Always (poolStep .virtio) WithinLimit Pool.init (fillCache 33)) ∧
    (¬ Always (poolStep .hybrid) WithinLimit Pool.init (fillCache 33)) ∧
    (run (step sampleShared) init (userCalls 65)).map (active 0) = some 65 := by
  have hover : ∀ d, (run (poolStep d) Pool.init (fillCache 33)).map
      (fun p => p.cached_bufs.length) = some 33 →
      ¬ Always (poolStep d) WithinLimit Pool.init (fillCache 33) := by
    intro d hlen h
    obtain ⟨t, ht, hlen⟩ := Option.map_eq_some_iff.mp hlen
    have hlim : t.cached_bufs.length ≤ 32 := h.last ht
    omega
  refine ⟨hover _ ?_, hover _ ?_, ?_⟩
  · decide +kernel
  · decide +kernel
  · decide +kernel

end virtual_fastrpc.declared_limits
