-- The reserved entries of the context table of a hybrid channel. Calls of users
-- on dynamic handles take entries from NUM_KERNEL_AND_STATIC_ONLY_CONTEXTS on,
-- so the entries below stay for kernel messages and static handles.
import PlatformKernel.ContextTable
import Mathlib.Data.List.Perm.Subperm

namespace virtual_fastrpc.reserved_entries

open virtual_fastrpc.context_table keyed slots step_runs

/-- From the moment context_alloc gives the context an entry until context_free takes it back.
A context that never got one dies with the fake node that it was made with. -/
def holdsEntry (c : InvokeCtx) : Bool :=
  match c.phase with
  | .tabled | .live => true
  | .dying => c.hn != .fake
  | .built | .unlinked | .delisted => false

/-- A kernel message or a call on a static handle. -/
def isCritical (c : InvokeCtx) : Bool := critical c.kernel_msg c.handle

/-- The node that a context has in each phase. -/
def NodeOk (c : InvokeCtx) : Prop :=
  ((c.phase = .built ∨ c.phase = .tabled) → c.hn = .fake) ∧ (c.phase = .live → c.hn ≠ .fake)

/-- The table and the ids of the contexts agree. -/
structure Placed (s : Chan) : Prop where
  holds : ∀ p c, s.ctx p = some c → holdsEntry c = true →
    s.ctxtable (GET_TABLE_IDX_FROM_CTXID c.ctxid) = some p
  entry : ∀ i p, s.ctxtable i = some p → i < FASTRPC_CTX_MAX ∧
    ∃ c, s.ctx p = some c ∧ holdsEntry c = true ∧ GET_TABLE_IDX_FROM_CTXID c.ctxid = i ∧
      (i < NUM_KERNEL_AND_STATIC_ONLY_CONTEXTS → isCritical c = true)
  node : ∀ p c, s.ctx p = some c → NodeOk c

theorem placed_init : Placed init where
  holds := by intro p c h; cases h
  entry := by intro i p h; cases h
  node := by intro p c h; cases h

/-- The context at `p` is not in the table. -/
theorem Placed.no_entry {s : Chan} (h : Placed s) {p : Nat} {c : InvokeCtx} (hc : s.ctx p = some c)
    (hp : holdsEntry c = false) : ∀ i, s.ctxtable i ≠ some p := by
  intro i hi
  obtain ⟨_, d, hd, hdp, _⟩ := h.entry i p hi
  rw [hc] at hd
  cases hd
  rw [hp] at hdp
  cases hdp

/-! ## What each step keeps -/

/-- A change of one context that keeps its id, its call and its hold on an entry. -/
theorem Placed.setCtx {s : Chan} {c : InvokeCtx} {f : InvokeCtx → InvokeCtx} (h : Placed s)
    (hc : s.ctx c.ptr = some c) (hptr : ∀ x, (f x).ptr = x.ptr) (hid : (f c).ctxid = c.ctxid)
    (hcall : isCritical (f c) = isCritical c) (hhold : holdsEntry (f c) = holdsEntry c)
    (hnode : NodeOk (f c)) : Placed (s.setCtx c.ptr f) := by
  have hself : (s.setCtx c.ptr f).ctx c.ptr = some (f c) := by
    rw [ctx_setCtx_self hptr, hc]
    rfl
  refine ⟨?_, ?_, ?_⟩
  · intro q d hd hdp
    by_cases hq : q = c.ptr
    · subst hq
      rw [hself] at hd
      cases hd
      rw [hid]
      exact h.holds _ _ hc (hhold ▸ hdp)
    · rw [ctx_setCtx_ne hptr hq] at hd
      exact h.holds q d hd hdp
  · intro i q hq
    obtain ⟨hi, d, hd, hdp, hdi, hdc⟩ := h.entry i q hq
    refine ⟨hi, ?_⟩
    by_cases hqc : q = c.ptr
    · subst hqc
      rw [hc] at hd
      cases hd
      exact ⟨f c, hself, hhold ▸ hdp, by rw [hid]; exact hdi, by rw [hcall]; exact hdc⟩
    · exact ⟨d, (ctx_setCtx_ne hptr hqc).trans hd, hdp, hdi, hdc⟩
  · intro q d hd
    by_cases hq : q = c.ptr
    · subst hq
      rw [hself] at hd
      cases hd
      exact hnode
    · rw [ctx_setCtx_ne hptr hq] at hd
      exact h.node q d hd

theorem Placed.setClst {s : Chan} (h : Placed s) (v : Nat) (g : CtxLst → CtxLst) :
    Placed (s.setClst v g) := ⟨h.holds, h.entry, h.node⟩

/-- A silent change of a context, whichever it is. -/
theorem Placed.setSilent {s : Chan} (h : Placed s) (p : Nat) {f : InvokeCtx → InvokeCtx}
    (hf : Silent f) : Placed (s.setCtx p f) := by
  rcases hc : s.ctx p with _ | c
  · have hsame : s.setCtx p f = s := by
      unfold Chan.setCtx
      rw [update_eq_self (lookup_eq_none.mp hc)]
    rw [hsame]
    exact h
  · have hp : c.ptr = p := key_of_lookup hc
    subst hp
    obtain ⟨_, _, hid, hn, hph⟩ := hf.1 c
    obtain ⟨hk, hh⟩ := hf.2 c
    refine h.setCtx hc (fun x => (hf.1 x).1) hid ?_ ?_ ?_
    · simp [isCritical, hk, hh]
    · simp [holdsEntry, hph, hn]
    · have hok := h.node _ _ hc
      unfold NodeOk at hok ⊢
      rw [hph, hn]
      exact hok

theorem placed_response {sh : AdsprpcShared} {s : Chan} (h : Placed s) (r : RspData) :
    Placed (fastrpc_handle_rpc_response sh s r).1 := by
  rcases response_cases sh s r with ⟨c, flags, early, _, _, _, he⟩ | ⟨_, n, he⟩
  · rw [he]
    exact notify_user_silent (P := Placed) (fun t f hf ht => ht.setSilent _ hf)
      (fun t ht => ht.setClst _ _) h
  · rw [he]
    exact ⟨h.holds, h.entry, h.node⟩

theorem placed_alloc_begin {sh : AdsprpcShared} {s t : Chan} {p vfl : Nat} {handle : BitVec 32}
    {k a : Bool} (h : Placed s) (ht : context_alloc_begin sh s p vfl handle k a = some t) :
    Placed t := by
  rcases context_alloc_begin_cases ht with rfl | ⟨_, hnone, rfl⟩
  · exact h
  · refine ⟨?_, ?_, ?_⟩
    · intro q d hd hdp
      by_cases hq : p = q
      · subst hq
        cases (@lookup_cons_self _ InvokeCtx.ptr _ _).symm.trans hd
        cases hdp
      · exact h.holds q d ((lookup_cons_ne hq).symm.trans hd) hdp
    · intro i q hq
      obtain ⟨hi, d, hd, hrest⟩ := h.entry i q hq
      have hpq : p ≠ q := by
        intro he
        subst he
        rw [hnone] at hd
        cases hd
      exact ⟨hi, d, (lookup_cons_ne hpq).trans hd, hrest⟩
    · intro q d hd
      by_cases hq : p = q
      · subst hq
        cases (@lookup_cons_self _ InvokeCtx.ptr _ _).symm.trans hd
        simp [NodeOk]
      · exact h.node q d ((lookup_cons_ne hq).symm.trans hd)

/-- context_alloc gives a context the entry that is in its id, and one of the reserved entries
only to a critical call. -/
theorem placed_alloc_entry {s : Chan} {c : InvokeCtx} (h : Placed s) (hc : s.ctx c.ptr = some c)
    (hp : c.phase = .built) : Placed (context_alloc_entry s c) := by
  have hfake : c.hn = .fake := (h.node _ _ hc).1 (Or.inl hp)
  have hno := h.no_entry hc (by simp [holdsEntry, hp])
  unfold context_alloc_entry
  dsimp only
  split
  · rename_i ii hii
    obtain ⟨hlo, hlt, hfree⟩ := firstFree_some hii
    have hself : (s.setCtx c.ptr (.enter (make_ctxid (s.jobid + 1) ii c.isasyncjob))).ctx c.ptr =
        some (c.enter (make_ctxid (s.jobid + 1) ii c.isasyncjob)) := by
      rw [ctx_enter_self, hc]
      rfl
    have hne : ∀ {q}, q ≠ c.ptr →
        (s.setCtx c.ptr (.enter (make_ctxid (s.jobid + 1) ii c.isasyncjob))).ctx q = s.ctx q :=
      fun hq => ctx_enter_ne s _ hq
    have hidx : GET_TABLE_IDX_FROM_CTXID
        (c.enter (make_ctxid (s.jobid + 1) ii c.isasyncjob)).ctxid = ii :=
      tableIdx_make_ctxid _ _ hlt
    refine ⟨?_, ?_, ?_⟩
    · intro q d hd hdp
      by_cases hq : q = c.ptr
      · subst hq
        cases hself.symm.trans hd
        rw [hidx]
        exact put_self ..
      · have hd := (hne hq).symm.trans hd
        have hold := h.holds q d hd hdp
        have hother : GET_TABLE_IDX_FROM_CTXID d.ctxid ≠ ii := by
          intro he
          rw [he, hfree] at hold
          cases hold
        exact (put_ne hother).trans hold
    · intro i q hq
      dsimp only at hq
      by_cases hi : i = ii
      · subst hi
        rw [put_self] at hq
        cases hq
        refine ⟨hlt, _, hself, rfl, hidx, fun hres => ?_⟩
        show critical c.kernel_msg c.handle = true
        by_contra hcrit
        rw [if_neg hcrit] at hlo
        omega
      · rw [put_ne hi] at hq
        obtain ⟨hi', d, hd, hrest⟩ := h.entry i q hq
        have hqc : q ≠ c.ptr := fun he => hno i (he ▸ hq)
        exact ⟨hi', d, (hne hqc).trans hd, hrest⟩
    · intro q d hd
      by_cases hq : q = c.ptr
      · subst hq
        cases hself.symm.trans hd
        simp [NodeOk, InvokeCtx.enter, hfake]
      · exact h.node q d ((hne hq).symm.trans hd)
  · have hraise : Placed { s with jobid := s.jobid + 1, attempts := s.attempts + 1 } :=
      ⟨h.holds, h.entry, h.node⟩
    refine hraise.setCtx hc (fun _ => rfl) rfl rfl ?_ ?_
    · simp [holdsEntry, InvokeCtx.goto, hp, hfake]
    · simp [NodeOk, InvokeCtx.goto]

/-- context_free takes back the entry of its context and of no other, on both of its ways. -/
theorem placed_free_entry {s : Chan} {c : InvokeCtx} (h : Placed s) (hc : s.ctx c.ptr = some c) :
    Placed (context_free_entry s c) := by
  have hself : (s.setCtx c.ptr (.goto .unlinked)).ctx c.ptr = some (c.goto .unlinked) := by
    have hgoto := @ctx_setCtx_self s c.ptr (.goto .unlinked) (fun _ => rfl)
    rw [hgoto, hc]
    rfl
  have hne : ∀ {q}, q ≠ c.ptr → (s.setCtx c.ptr (.goto .unlinked)).ctx q = s.ctx q :=
    fun hq => ctx_setCtx_ne (fun _ => rfl) hq
  have hnode : ∀ q d, (s.setCtx c.ptr (.goto .unlinked)).ctx q = some d → NodeOk d := by
    intro q d hd
    by_cases hq : q = c.ptr
    · subst hq
      cases hself.symm.trans hd
      simp [NodeOk, InvokeCtx.goto]
    · exact h.node q d ((hne hq).symm.trans hd)
  -- the entry that goes away is the one in the id of the context
  have hgone : ∀ i, s.ctxtable i = some c.ptr →
      Placed { s.setCtx c.ptr (.goto .unlinked) with ctxtable := put s.ctxtable i none } := by
    intro i hi
    obtain ⟨_, d, hd, hdp, hdi, _⟩ := h.entry i c.ptr hi
    rw [hc] at hd
    cases hd
    refine ⟨?_, ?_, hnode⟩
    · intro q d hd hdp'
      by_cases hq : q = c.ptr
      · subst hq
        cases hself.symm.trans hd
        cases hdp'
      · have hold := h.holds q d ((hne hq).symm.trans hd) hdp'
        have hother : GET_TABLE_IDX_FROM_CTXID d.ctxid ≠ i := by
          intro he
          rw [he, hi] at hold
          exact hq (Option.some.inj hold).symm
        exact (put_ne hother).trans hold
    · intro j q hq
      dsimp only at hq
      by_cases hj : j = i
      · subst hj
        rw [put_self] at hq
        cases hq
      · rw [put_ne hj] at hq
        obtain ⟨hj', d, hd, hdq, hdj, hrest⟩ := h.entry j q hq
        have hqc : q ≠ c.ptr := by
          intro he
          subst he
          rw [hc] at hd
          cases hd
          exact hj (hdj.symm.trans hdi)
        exact ⟨hj', d, (hne hqc).trans hd, hdq, hdj, hrest⟩
  unfold context_free_entry
  dsimp only
  split
  · rename_i hi
    exact hgone _ hi.2
  · split
    · rename_i j hj
      exact hgone j (firstHolding_some hj).2
    · rename_i hnone
      -- a context without an entry: its context_alloc failed
      have hfree : holdsEntry c = false := by
        rcases hb : holdsEntry c with _ | _
        · rfl
        · have hold := h.holds _ _ hc hb
          exact absurd hold (firstHolding_none hnone _ (h.entry _ _ hold).1)
      refine h.setCtx hc (fun _ => rfl) rfl rfl (by rw [hfree]; rfl) ?_
      simp [NodeOk, InvokeCtx.goto]

theorem placed_free_end {s : Chan} {c : InvokeCtx} (h : Placed s) (hc : s.ctx c.ptr = some c)
    (hp : c.phase = .delisted) : Placed (context_free_end s c) := by
  have hno := h.no_entry hc (by simp [holdsEntry, hp])
  have hgone : (context_free_end s c).ctx c.ptr = none :=
    lookup_eq_none.mpr (fun x hx => (mem_remove.mp hx).2)
  have hold : ∀ {q d}, (context_free_end s c).ctx q = some d → s.ctx q = some d := by
    intro q d hd
    have hq : q ≠ c.ptr := by
      intro he
      rw [he, hgone] at hd
      cases hd
    exact (lookup_remove_ne hq).symm.trans hd
  refine ⟨fun q d hd => h.holds q d (hold hd), ?_, fun q d hd => h.node q d (hold hd)⟩
  intro i q hq
  obtain ⟨hi, d, hd, hrest⟩ := h.entry i q hq
  have hne : q ≠ c.ptr := fun he => hno i (he ▸ hq)
  exact ⟨hi, d, (lookup_remove_ne hne).trans hd, hrest⟩

/-- Every step keeps the table and the ids together. -/
theorem step_placed (sh : AdsprpcShared) (s : Chan) (a : Act) (t : Chan) (h : Placed s)
    (ht : step sh s a = some t) : Placed t := by
  cases a with
  | alloc_begin p vfl handle k b => exact placed_alloc_begin h ht
  | response r =>
    cases ht
    exact placed_response h r
  | alloc_fail p =>
    obtain ⟨c, hc, hp, rfl⟩ := onCtx_some ht
    have hp : c.phase = .built := by simpa using hp
    have hfake : c.hn = .fake := (h.node _ _ hc).1 (Or.inl hp)
    refine h.setCtx hc (fun _ => rfl) rfl rfl ?_ ?_
    · simp [holdsEntry, InvokeCtx.goto, hp, hfake]
    · simp [NodeOk, InvokeCtx.goto]
  | alloc_entry p =>
    obtain ⟨c, hc, hp, rfl⟩ := onCtx_some ht
    exact placed_alloc_entry h hc (by simpa using hp)
  | alloc_list p =>
    obtain ⟨c, hc, hp, rfl⟩ := onCtx_some ht
    have hp : c.phase = .tabled := by simpa using hp
    apply Placed.setClst
    refine h.setCtx hc (fun _ => rfl) rfl rfl ?_ ?_
    · simp [holdsEntry, hp]
    · simp [NodeOk]
  | save_interrupted p =>
    obtain ⟨c, hc, hp, rfl⟩ := onCtx_some ht
    have hp : c.phase = .live ∧ c.hn = .pending := by simpa using hp
    apply Placed.setClst
    refine h.setCtx hc (fun _ => rfl) rfl rfl ?_ ?_
    · simp [holdsEntry, hp.1]
    · simp [NodeOk, hp.1]
  | restore_interrupted p =>
    obtain ⟨c, hc, hp, rfl⟩ := onCtx_some ht
    have hp : c.phase = .live ∧ c.hn = .interrupted := by simpa using hp
    apply Placed.setClst
    refine h.setCtx hc (fun _ => rfl) rfl rfl ?_ ?_
    · simp [holdsEntry, hp.1]
    · simp [NodeOk, hp.1]
  | dtor p =>
    obtain ⟨c, hc, hp, rfl⟩ := onCtx_some ht
    have hp : c.phase = .live := by simpa using hp
    apply Placed.setClst
    refine h.setCtx hc (fun _ => rfl) rfl rfl ?_ ?_
    · simp [holdsEntry, hp]
    · simp [NodeOk]
  | free p =>
    obtain ⟨c, hc, hp, rfl⟩ := onCtx_some ht
    have hp : c.phase = .live := by simpa using hp
    have hreal : c.hn ≠ .fake := (h.node _ _ hc).2 hp
    refine h.setCtx hc (fun _ => rfl) rfl rfl ?_ ?_
    · simp [holdsEntry, InvokeCtx.goto, hp, hreal]
    · simp [NodeOk, InvokeCtx.goto]
  | free_entry p =>
    obtain ⟨c, hc, _, rfl⟩ := onCtx_some ht
    exact placed_free_entry h hc
  | free_list p =>
    obtain ⟨c, hc, hp, rfl⟩ := onCtx_some ht
    have hp : c.phase = .unlinked := by simpa using hp
    unfold context_free_list
    split
    · refine h.setCtx hc (fun _ => rfl) rfl rfl ?_ ?_
      · simp [holdsEntry, InvokeCtx.goto, hp]
      · simp [NodeOk, InvokeCtx.goto]
    · apply Placed.setClst
      refine h.setCtx hc (fun _ => rfl) rfl rfl ?_ ?_
      · simp [holdsEntry, hp]
      · simp [NodeOk]
  | free_end p =>
    obtain ⟨c, hc, hp, rfl⟩ := onCtx_some ht
    exact placed_free_end h hc (by simpa using hp)

/-! ## The laws -/

/-- The critical contexts that hold an entry. -/
def criticalHolders (s : Chan) : List InvokeCtx :=
  s.ctxs.filter (fun c => isCritical c && holdsEntry c)

/-- When the reserved entries are all taken, as many critical contexts hold them. -/
theorem Placed.full_reserve {s : Chan} (h : Placed s)
    (hfull : ∀ i < NUM_KERNEL_AND_STATIC_ONLY_CONTEXTS, s.ctxtable i ≠ none) :
    NUM_KERNEL_AND_STATIC_ONLY_CONTEXTS ≤ (criticalHolders s).length := by
  -- the contexts of the reserved entries, one for each of them
  let owners := (List.range NUM_KERNEL_AND_STATIC_ONLY_CONTEXTS).map
    (fun i => (s.ctxtable i).getD 0)
  have howner : ∀ i < NUM_KERNEL_AND_STATIC_ONLY_CONTEXTS,
      s.ctxtable i = some ((s.ctxtable i).getD 0) := by
    intro i hi
    obtain ⟨p, hp⟩ := Option.ne_none_iff_exists'.mp (hfull i hi)
    simp [hp]
  have hnodup : owners.Nodup := by
    refine List.Nodup.map_on ?_ List.nodup_range
    intro i hi j hj hij
    have h1 := howner i (List.mem_range.mp hi)
    have h2 := howner j (List.mem_range.mp hj)
    rw [hij] at h1
    obtain ⟨_, c, hc, _, hci, _⟩ := h.entry _ _ h1
    obtain ⟨_, d, hd, _, hdj, _⟩ := h.entry _ _ h2
    rw [hc] at hd
    cases hd
    exact hci.symm.trans hdj
  have hsub : owners ⊆ (criticalHolders s).map InvokeCtx.ptr := by
    intro p hp
    obtain ⟨i, hi, rfl⟩ := List.mem_map.mp hp
    have hi := List.mem_range.mp hi
    obtain ⟨_, c, hc, hch, _, hcc⟩ := h.entry _ _ (howner i hi)
    refine List.mem_map.mpr ⟨c, ?_, key_of_lookup hc⟩
    exact List.mem_filter.mpr ⟨mem_of_lookup hc, by simp [hcc hi, hch]⟩
  have hlen := (hnodup.subperm hsub).length_le
  simpa [owners] using hlen

/-- A context_alloc that finds no entry: the context goes to context_free, with -ENOKEY. -/
def Enokey (t : Chan) (p : Nat) : Prop := ∃ d, t.ctx p = some d ∧ d.phase = .dying

theorem entry_full_of_enokey {s : Chan} {c : InvokeCtx} (hc : s.ctx c.ptr = some c)
    (hfail : Enokey (context_alloc_entry s c) c.ptr) :
    ∀ i, (if critical c.kernel_msg c.handle then 0 else NUM_KERNEL_AND_STATIC_ONLY_CONTEXTS) ≤ i →
      i < FASTRPC_CTX_MAX → s.ctxtable i ≠ none := by
  obtain ⟨d, hd, hdp⟩ := hfail
  unfold context_alloc_entry at hd
  dsimp only at hd
  split at hd
  · have hself : d = c.enter _ := Option.some.inj
      (hd.symm.trans ((ctx_enter_self s c.ptr _).trans (by rw [hc]; rfl)))
    rw [hself] at hdp
    cases hdp
  · rename_i hfull
    exact firstFree_none hfull

/-- In every run of the calls of any sessions on a channel: the reserved entries hold critical
calls only; each context that has its entry is in the one entry that its id names, and the table
holds nothing else; and context_alloc fails with -ENOKEY for a user call on a dynamic handle only
when every entry above the reserved ones is taken, and for a critical call only when the whole
table is, so never while fewer than NUM_KERNEL_AND_STATIC_ONLY_CONTEXTS critical contexts hold
entries. -/
theorem the_first_entries_are_reserved {sh : AdsprpcShared} {s : Chan}
    (h : Reachable (step sh) init s) :
    (∀ i < NUM_KERNEL_AND_STATIC_ONLY_CONTEXTS, ∀ p, s.ctxtable i = some p →
      ∃ c, s.ctx p = some c ∧ (c.kernel_msg = true ∨ c.handle.toNat < FASTRPC_STATIC_HANDLE_MAX)) ∧
    (∀ p c, s.ctx p = some c → holdsEntry c = true →
      ∀ i, s.ctxtable i = some p ↔ i = GET_TABLE_IDX_FROM_CTXID c.ctxid) ∧
    (∀ i p, s.ctxtable i = some p → ∃ c, s.ctx p = some c ∧ holdsEntry c = true) ∧
    ∀ p c t, s.ctx p = some c → step sh s (.alloc_entry p) = some t → Enokey t p →
      (isCritical c = false → ∀ i, NUM_KERNEL_AND_STATIC_ONLY_CONTEXTS ≤ i → i < FASTRPC_CTX_MAX →
        s.ctxtable i ≠ none) ∧
      (isCritical c = true → (∀ i < FASTRPC_CTX_MAX, s.ctxtable i ≠ none) ∧
        NUM_KERNEL_AND_STATIC_ONLY_CONTEXTS ≤ (criticalHolders s).length) := by
  have hpl : Placed s := h.inv Placed (step_placed sh) placed_init
  refine ⟨?_, ?_, ?_, ?_⟩
  · intro i hi p hp
    obtain ⟨_, c, hc, _, _, hcc⟩ := hpl.entry i p hp
    refine ⟨c, hc, ?_⟩
    simpa [isCritical, critical] using hcc hi
  · intro p c hc hch i
    constructor
    · intro hi
      obtain ⟨_, d, hd, _, hdi, _⟩ := hpl.entry i p hi
      rw [hc] at hd
      cases hd
      exact hdi.symm
    · rintro rfl
      exact hpl.holds p c hc hch
  · intro i p hp
    obtain ⟨_, c, hc, hch, _⟩ := hpl.entry i p hp
    exact ⟨c, hc, hch⟩
  · intro p c t hc ht hfail
    obtain ⟨d, rfl, hd, _, rfl⟩ := onCtx_at ht
    rw [hc] at hd
    cases hd
    have hfull := entry_full_of_enokey hc hfail
    constructor
    · intro hcrit i hlo hi
      exact hfull i (by rw [if_neg (by simpa [isCritical] using hcrit)]; exact hlo) hi
    · intro hcrit
      have hall : ∀ i < FASTRPC_CTX_MAX, s.ctxtable i ≠ none := by
        intro i hi
        exact hfull i (by rw [if_pos (by simpa [isCritical] using hcrit)]; exact Nat.zero_le i) hi
      refine ⟨hall, hpl.full_reserve (fun i hi => hall i ?_)⟩
      exact Nat.lt_trans hi (by decide)

/-- A kernel message and a user call on a dynamic handle: the first entry, and the first entry
that is not reserved. -/
theorem a_kernel_message_takes_the_first_entry :
    ∃ s c d, run (step sampleShared) init
        [.alloc_begin 7 0 30 true false, .alloc_entry 7, .alloc_list 7,
          .alloc_begin 8 0 30 false false, .alloc_entry 8] = some s ∧
      s.ctx 7 = some c ∧ s.ctx 8 = some d ∧
      (∀ i, s.ctxtable i = some 7 ↔ i = GET_TABLE_IDX_FROM_CTXID c.ctxid) ∧
      (∀ i, s.ctxtable i = some 8 ↔ i = GET_TABLE_IDX_FROM_CTXID d.ctxid) ∧
      GET_TABLE_IDX_FROM_CTXID c.ctxid = 0 ∧ GET_TABLE_IDX_FROM_CTXID d.ctxid = 70 := by
  refine ⟨_, _, _, rfl, rfl, rfl, ?_, ?_, by decide, by decide⟩
  · exact (@the_first_entries_are_reserved sampleShared _ ⟨[.alloc_begin 7 0 30 true false,
      .alloc_entry 7, .alloc_list 7, .alloc_begin 8 0 30 false false, .alloc_entry 8], rfl⟩).2.1
      7 _ rfl rfl
  · exact (@the_first_entries_are_reserved sampleShared _ ⟨[.alloc_begin 7 0 30 true false,
      .alloc_entry 7, .alloc_list 7, .alloc_begin 8 0 30 false false, .alloc_entry 8], rfl⟩).2.1
      8 _ rfl rfl

end virtual_fastrpc.reserved_entries
