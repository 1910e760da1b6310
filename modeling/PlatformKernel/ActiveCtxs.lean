-- The count of the active contexts of a hybrid session. context_alloc counts a
-- context when it puts it on the pending list, and context_free counts it off
-- when its node is hashed, but a node is hashed from the moment it is made.
import PlatformKernel.ContextTable

namespace virtual_fastrpc.active_ctxs

open virtual_fastrpc.context_table keyed slots step_runs

/-! ## The count and the lists -/

/-- `num_active_ctxs` of session `v` is the number of its contexts on the two lists, as an
unsigned number of 32 bits. -/
def CountsItsLists (v : Nat) (s : Chan) : Prop :=
  (s.clst v).num_active_ctxs =
    BitVec.ofNat 32 ((s.clst v).pending.length + (s.clst v).interrupted.length)

/-- The table has an entry that context_alloc may give to the context. -/
def hasFreeEntry (s : Chan) (c : InvokeCtx) : Prop :=
  ∃ ii, (if critical c.kernel_msg c.handle then 0 else NUM_KERNEL_AND_STATIC_ONLY_CONTEXTS) ≤ ii ∧
    ii < FASTRPC_CTX_MAX ∧ s.ctxtable ii = none

/-- The step does not make a context_alloc of session `v` fail after it has made its context,
and is no step of the closing of session `v`. -/
def NoFailedAlloc (v : Nat) (s : Chan) : Act → Prop
  | .alloc_fail p => ∀ c, s.ctx p = some c → c.vfl ≠ v
  | .alloc_entry p => ∀ c, s.ctx p = some c → c.vfl = v → hasFreeEntry s c
  | .dtor p => ∀ c, s.ctx p = some c → c.vfl ≠ v
  | _ => True

/-- A context of session `v` at `p` whose node is at `n`. -/
def Hangs (s : Chan) (v : Nat) (n : Node) (p : Nat) : Prop :=
  ∃ c, s.ctx p = some c ∧ c.vfl = v ∧ c.hn = n

/-- Only a context that is still being made has a fake node, and context_free leaves the node
unhashed. -/
def Settled (c : InvokeCtx) : Prop :=
  (c.hn = .fake ↔ c.phase = .built ∨ c.phase = .tabled) ∧ (c.phase = .delisted → c.hn = .unhashed)

structure Counted (v : Nat) (s : Chan) : Prop where
  pending : ∀ p, p ∈ (s.clst v).pending ↔ Hangs s v .pending p
  interrupted : ∀ p, p ∈ (s.clst v).interrupted ↔ Hangs s v .interrupted p
  pending_nodup : (s.clst v).pending.Nodup
  interrupted_nodup : (s.clst v).interrupted.Nodup
  settled : ∀ p c, s.ctx p = some c → c.vfl = v → Settled c
  count : CountsItsLists v s

theorem counted_init (v : Nat) : Counted v init where
  pending := by
    intro p
    exact ⟨fun h => absurd h List.not_mem_nil, fun ⟨_, h, _⟩ => by cases h⟩
  interrupted := by
    intro p
    exact ⟨fun h => absurd h List.not_mem_nil, fun ⟨_, h, _⟩ => by cases h⟩
  pending_nodup := List.nodup_nil
  interrupted_nodup := List.nodup_nil
  settled := by intro p c h; cases h
  count := rfl

/-! ## A change of one context -/

/-- The two channels have the same lists and the same count for the session. -/
def SameLists (v : Nat) (s t : Chan) : Prop :=
  (t.clst v).pending = (s.clst v).pending ∧ (t.clst v).interrupted = (s.clst v).interrupted ∧
    (t.clst v).num_active_ctxs = (s.clst v).num_active_ctxs

theorem hangs_congr {s t : Chan} {v : Nat} {n : Node} {q : Nat} (h : t.ctx q = s.ctx q) :
    Hangs t v n q ↔ Hangs s v n q := by
  unfold Hangs
  rw [h]

/-- The lists stay, and the changed context hangs where it hung before. -/
theorem Counted.keep {v : Nat} {s t : Chan} {p : Nat} (h : Counted v s)
    (hne : ∀ q ≠ p, t.ctx q = s.ctx q) (hl : SameLists v s t)
    (hhang : ∀ n, n = .pending ∨ n = .interrupted → (Hangs t v n p ↔ Hangs s v n p))
    (hset : ∀ d, t.ctx p = some d → d.vfl = v → Settled d) : Counted v t := by
  obtain ⟨hlp, hli, hln⟩ := hl
  refine ⟨?_, ?_, by rw [hlp]; exact h.pending_nodup,
    by rw [hli]; exact h.interrupted_nodup, ?_, ?_⟩
  · intro q
    rw [hlp, h.pending]
    by_cases hq : q = p
    · subst hq
      exact (hhang _ (Or.inl rfl)).symm
    · exact (hangs_congr (hne q hq)).symm
  · intro q
    rw [hli, h.interrupted]
    by_cases hq : q = p
    · subst hq
      exact (hhang _ (Or.inr rfl)).symm
    · exact (hangs_congr (hne q hq)).symm
  · intro q d hd hv
    by_cases hq : q = p
    · subst hq
      exact hset d hd hv
    · exact h.settled q d ((hne q hq).symm.trans hd) hv
  · unfold CountsItsLists
    rw [hlp, hli, hln]
    exact h.count

/-- A context of another session may change in any way. -/
theorem Counted.other {v : Nat} {s t : Chan} {c : InvokeCtx} (h : Counted v s)
    (hc : s.ctx c.ptr = some c) (hv : c.vfl ≠ v) (hne : ∀ q ≠ c.ptr, t.ctx q = s.ctx q)
    (hl : t.clst v = s.clst v) (hvfl : ∀ d, t.ctx c.ptr = some d → d.vfl = c.vfl) :
    Counted v t := by
  refine h.keep hne ⟨by rw [hl], by rw [hl], by rw [hl]⟩ ?_ ?_
  · intro n _
    constructor
    · rintro ⟨d, hd, hdv, _⟩
      exact absurd ((hvfl d hd).symm.trans hdv) hv
    · rintro ⟨d, hd, hdv, _⟩
      rw [hc] at hd
      cases hd
      exact absurd hdv hv
  · intro d hd hdv
    exact absurd ((hvfl d hd).symm.trans hdv) hv

/-- A list after the node of `p` went to `n`, when the list holds the nodes at `m`. -/
def relist (p : Nat) (n m : Node) (l : List Nat) : List Nat :=
  if n = m then p :: l.erase p else l.erase p

theorem mem_relist_self {p : Nat} {n m : Node} {l : List Nat} (hl : l.Nodup) :
    p ∈ relist p n m l ↔ n = m := by
  unfold relist
  split
  · simp [‹n = m›]
  · simp [hl.mem_erase_iff, ‹¬n = m›]

theorem mem_relist_ne {p q : Nat} {n m : Node} {l : List Nat} (hq : q ≠ p) :
    q ∈ relist p n m l ↔ q ∈ l := by
  unfold relist
  split
  · simp [hq, List.mem_erase_of_ne hq]
  · exact List.mem_erase_of_ne hq

theorem relist_nodup {p : Nat} {n m : Node} {l : List Nat} (hl : l.Nodup) :
    (relist p n m l).Nodup := by
  unfold relist
  split
  · exact List.nodup_cons.mpr ⟨hl.not_mem_erase, hl.erase p⟩
  · exact hl.erase p

theorem relist_length {p : Nat} {o n m : Node} {l : List Nat} (ho : p ∈ l ↔ o = m) :
    (relist p n m l).length + (if o = m then 1 else 0) = l.length + (if n = m then 1 else 0) := by
  unfold relist
  by_cases hp : p ∈ l
  · have hpos := List.length_pos_of_mem hp
    by_cases hn : n = m
    · simp [hn, ho.mp hp, List.length_erase_of_mem hp]
      omega
    · simp [hn, ho.mp hp, List.length_erase_of_mem hp]
      omega
  · have hom : o ≠ m := fun he => hp (ho.mpr he)
    by_cases hn : n = m
    · simp [hn, hom, List.erase_of_not_mem hp]
    · simp [hn, hom, List.erase_of_not_mem hp]

/-- How many of the two lists a node is on. -/
def linked : Node → Nat
  | .pending | .interrupted => 1
  | .fake | .unhashed => 0

/-- A context of the session goes to another node: the lists follow it, and the count changes
by the lists that it has left and come to. -/
theorem Counted.move {v : Nat} {s t : Chan} {c d : InvokeCtx} (h : Counted v s)
    (hc : s.ctx c.ptr = some c) (hv : c.vfl = v) (hne : ∀ q ≠ c.ptr, t.ctx q = s.ctx q)
    (hd : t.ctx c.ptr = some d) (hdv : d.vfl = v) (hset : Settled d)
    (hp : (t.clst v).pending = relist c.ptr d.hn .pending (s.clst v).pending)
    (hi : (t.clst v).interrupted = relist c.ptr d.hn .interrupted (s.clst v).interrupted)
    (hnum : (t.clst v).num_active_ctxs + BitVec.ofNat 32 (linked c.hn) =
      (s.clst v).num_active_ctxs + BitVec.ofNat 32 (linked d.hn)) : Counted v t := by
  have hhang : ∀ n, Hangs t v n c.ptr ↔ d.hn = n := by
    intro n
    constructor
    · rintro ⟨e, he, _, hn⟩
      rw [hd] at he
      cases he
      exact hn
    · intro hn
      exact ⟨d, hd, hdv, hn⟩
  have hmem : ∀ n, Hangs s v n c.ptr ↔ c.hn = n := by
    intro n
    constructor
    · rintro ⟨e, he, _, hn⟩
      rw [hc] at he
      cases he
      exact hn
    · intro hn
      exact ⟨c, hc, hv, hn⟩
  refine ⟨?_, ?_, by rw [hp]; exact relist_nodup h.pending_nodup,
    by rw [hi]; exact relist_nodup h.interrupted_nodup, ?_, ?_⟩
  · intro q
    rw [hp]
    by_cases hq : q = c.ptr
    · subst hq
      rw [mem_relist_self h.pending_nodup, hhang]
    · rw [mem_relist_ne hq, h.pending, hangs_congr (hne q hq)]
  · intro q
    rw [hi]
    by_cases hq : q = c.ptr
    · subst hq
      rw [mem_relist_self h.interrupted_nodup, hhang]
    · rw [mem_relist_ne hq, h.interrupted, hangs_congr (hne q hq)]
  · intro q e he hev
    by_cases hq : q = c.ptr
    · subst hq
      rw [hd] at he
      cases he
      exact hset
    · exact h.settled q e ((hne q hq).symm.trans he) hev
  · -- the context is on the list of its old node, and then on the list of its new one
    have hlp := relist_length (n := d.hn) ((h.pending c.ptr).trans (hmem .pending))
    have hli := relist_length (n := d.hn) ((h.interrupted c.ptr).trans (hmem .interrupted))
    rw [← hp] at hlp
    rw [← hi] at hli
    have hlen : (t.clst v).pending.length + (t.clst v).interrupted.length + linked c.hn =
        (s.clst v).pending.length + (s.clst v).interrupted.length + linked d.hn := by
      generalize c.hn = a at hlp hli ⊢
      generalize d.hn = b at hlp hli ⊢
      cases a <;> cases b <;> simp [linked] at hlp hli ⊢ <;> omega
    have hcount := h.count
    unfold CountsItsLists at hcount ⊢
    rw [hcount, ← BitVec.ofNat_add, ← hlen, BitVec.ofNat_add] at hnum
    exact add_right_cancel hnum

/-! ## The steps -/

@[simp] theorem ctx_setClst (s : Chan) (w : Nat) (g : CtxLst → CtxLst) (q : Nat) :
    (s.setClst w g).ctx q = s.ctx q := rfl

theorem clst_setClst_self (s : Chan) (w : Nat) (g : CtxLst → CtxLst) :
    (s.setClst w g).clst w = g (s.clst w) := if_pos rfl

theorem clst_setClst_ne {s : Chan} {w v : Nat} {g : CtxLst → CtxLst} (h : v ≠ w) :
    (s.setClst w g).clst v = s.clst v := if_neg h

/-- A step that changes a context without its session and its node. -/
theorem Counted.setCtx {v : Nat} {s : Chan} {c : InvokeCtx} {f : InvokeCtx → InvokeCtx}
    (h : Counted v s) (hc : s.ctx c.ptr = some c) (hptr : ∀ x, (f x).ptr = x.ptr)
    (hvfl : ∀ x, (f x).vfl = x.vfl) (hhn : ∀ x, (f x).hn = x.hn)
    (hset : c.vfl = v → Settled (f c)) : Counted v (s.setCtx c.ptr f) := by
  have hself : (s.setCtx c.ptr f).ctx c.ptr = some (f c) := by
    rw [ctx_setCtx_self hptr, hc]
    rfl
  refine h.keep (p := c.ptr) (fun q hq => ctx_setCtx_ne hptr hq) ⟨rfl, rfl, rfl⟩ ?_ ?_
  · intro n _
    unfold Hangs
    rw [hself, hc]
    simp [hvfl, hhn]
  · intro d hd hdv
    rw [hself] at hd
    cases hd
    exact hset ((hvfl c).symm.trans hdv)

/-- A step that moves a context between the lists of its session. -/
theorem Counted.relink {v : Nat} {s : Chan} {c : InvokeCtx} {f : InvokeCtx → InvokeCtx}
    {g : CtxLst → CtxLst} (h : Counted v s) (hc : s.ctx c.ptr = some c)
    (hptr : ∀ x, (f x).ptr = x.ptr) (hvfl : ∀ x, (f x).vfl = x.vfl)
    (hset : c.vfl = v → Settled (f c))
    (hp : c.vfl = v → (g (s.clst v)).pending = relist c.ptr (f c).hn .pending (s.clst v).pending)
    (hi : c.vfl = v →
      (g (s.clst v)).interrupted = relist c.ptr (f c).hn .interrupted (s.clst v).interrupted)
    (hnum : c.vfl = v → (g (s.clst v)).num_active_ctxs + BitVec.ofNat 32 (linked c.hn) =
      (s.clst v).num_active_ctxs + BitVec.ofNat 32 (linked (f c).hn)) :
    Counted v ((s.setCtx c.ptr f).setClst c.vfl g) := by
  have hself : ((s.setCtx c.ptr f).setClst c.vfl g).ctx c.ptr = some (f c) := by
    rw [ctx_setClst, ctx_setCtx_self hptr, hc]
    rfl
  by_cases hv : c.vfl = v
  · subst hv
    refine h.move hc rfl (fun q hq => ctx_setCtx_ne hptr hq) hself (hvfl c) (hset rfl) ?_ ?_ ?_
    · rw [clst_setClst_self]
      exact hp rfl
    · rw [clst_setClst_self]
      exact hi rfl
    · rw [clst_setClst_self]
      exact hnum rfl
  · refine h.other hc hv (fun q hq => ctx_setCtx_ne hptr hq)
      (clst_setClst_ne (fun he => hv he.symm)) ?_
    intro d hd
    rw [hself] at hd
    cases hd
    exact hvfl c

/-- The two channels differ only in what the lists of the sessions do not show. -/
def Alike (s t : Chan) : Prop :=
  (∀ q, (t.ctx q).map (fun c => (c.vfl, c.hn, c.phase)) =
    (s.ctx q).map (fun c => (c.vfl, c.hn, c.phase))) ∧ ∀ v, SameLists v s t

theorem Alike.refl (s : Chan) : Alike s s := ⟨fun _ => rfl, fun _ => ⟨rfl, rfl, rfl⟩⟩

theorem Alike.setCtx {s t : Chan} (h : Alike s t) {p : Nat} {f : InvokeCtx → InvokeCtx}
    (hptr : ∀ x, (f x).ptr = x.ptr) (hf : ∀ x, ((f x).vfl, (f x).hn, (f x).phase) =
      (x.vfl, x.hn, x.phase)) : Alike s (t.setCtx p f) := by
  refine ⟨fun q => ?_, h.2⟩
  rw [← h.1 q]
  by_cases hq : q = p
  · subst hq
    rw [ctx_setCtx_self hptr, Option.map_map]
    exact congrArg (fun g => (t.ctx q).map g) (funext hf)
  · rw [ctx_setCtx_ne hptr hq]

theorem Alike.setClst {s t : Chan} (h : Alike s t) {w : Nat} {g : CtxLst → CtxLst}
    (hg : ∀ l, (g l).pending = l.pending ∧ (g l).interrupted = l.interrupted ∧
      (g l).num_active_ctxs = l.num_active_ctxs) : Alike s (t.setClst w g) := by
  refine ⟨h.1, fun v => ?_⟩
  obtain ⟨h1, h2, h3⟩ := h.2 v
  by_cases hv : v = w
  · subst hv
    obtain ⟨g1, g2, g3⟩ := hg (t.clst v)
    unfold SameLists
    rw [clst_setClst_self]
    exact ⟨g1.trans h1, g2.trans h2, g3.trans h3⟩
  · unfold SameLists
    rw [clst_setClst_ne hv]
    exact ⟨h1, h2, h3⟩

theorem alike_notify_user {sh : AdsprpcShared} {s : Chan} {c : InvokeCtx} {retval : Int}
    {rsp_flags early : BitVec 32} :
    Alike s (context_notify_user sh s c retval rsp_flags early) := by
  refine notify_user_keeps (P := Alike s) ?_ ?_ (Alike.refl s)
  · intro t f hf ht
    apply ht.setCtx (fun x => (hf x).1)
    intro x
    obtain ⟨_, hv, _, hn, hp⟩ := hf x
    rw [hv, hn, hp]
  · intro t ht
    exact ht.setClst (fun _ => ⟨rfl, rfl, rfl⟩)

theorem alike_response (sh : AdsprpcShared) (s : Chan) (r : RspData) :
    Alike s (fastrpc_handle_rpc_response sh s r).1 := by
  rcases response_cases sh s r with ⟨c, flags, early, _, _, _, he⟩ | ⟨_, n, he⟩
  · rw [he]
    exact alike_notify_user
  · rw [he]
    exact Alike.refl s

/-- A channel that the lists cannot tell from a counted one is counted. -/
theorem Counted.alike {v : Nat} {s t : Chan} (h : Counted v s) (ha : Alike s t) : Counted v t := by
  obtain ⟨hlp, hli, hln⟩ := ha.2 v
  have hctx : ∀ {q d}, t.ctx q = some d → ∃ c, s.ctx q = some c ∧ c.vfl = d.vfl ∧ c.hn = d.hn ∧
      c.phase = d.phase := by
    intro q d hd
    have := ha.1 q
    rw [hd] at this
    obtain ⟨c, hc, he⟩ := Option.map_eq_some_iff.mp this.symm
    simp only [Prod.mk.injEq] at he
    exact ⟨c, hc, he⟩
  have hhang : ∀ n q, Hangs t v n q ↔ Hangs s v n q := by
    intro n q
    constructor
    · rintro ⟨d, hd, hdv, hn⟩
      obtain ⟨c, hc, h1, h2, _⟩ := hctx hd
      exact ⟨c, hc, h1.trans hdv, h2.trans hn⟩
    · rintro ⟨c, hc, hcv, hn⟩
      have := ha.1 q
      rw [hc] at this
      obtain ⟨d, hd, he⟩ := Option.map_eq_some_iff.mp this
      simp only [Prod.mk.injEq] at he
      exact ⟨d, hd, he.1.trans hcv, he.2.1.trans hn⟩
  refine ⟨?_, ?_, by rw [hlp]; exact h.pending_nodup,
    by rw [hli]; exact h.interrupted_nodup, ?_, ?_⟩
  · intro q
    rw [hlp, h.pending, hhang]
  · intro q
    rw [hli, h.interrupted, hhang]
  · intro q d hd hdv
    obtain ⟨c, hc, h1, h2, h3⟩ := hctx hd
    have := h.settled q c hc (h1.trans hdv)
    unfold Settled at this ⊢
    rw [← h2, ← h3]
    exact this
  · unfold CountsItsLists
    rw [hlp, hli, hln]
    exact h.count

theorem counted_alloc_begin {sh : AdsprpcShared} {v : Nat} {s t : Chan} {p vfl : Nat}
    {handle : BitVec 32} {k a : Bool} (h : Counted v s)
    (ht : context_alloc_begin sh s p vfl handle k a = some t) : Counted v t := by
  rcases context_alloc_begin_cases ht with rfl | ⟨_, hnone, rfl⟩
  · exact h
  · refine h.keep (p := p) ?_ ⟨rfl, rfl, rfl⟩ ?_ ?_
    · intro q hq
      exact lookup_cons_ne (fun he => hq he.symm)
    · intro n hn
      constructor
      · rintro ⟨d, hd, _, hdn⟩
        have hd' := (@lookup_cons_self _ InvokeCtx.ptr _ _).symm.trans hd
        cases hd'
        rcases hn with rfl | rfl <;> cases hdn
      · rintro ⟨d, hd, _⟩
        rw [hnone] at hd
        cases hd
    · intro d hd _
      have hd' := (@lookup_cons_self _ InvokeCtx.ptr _ _).symm.trans hd
      cases hd'
      simp [Settled]

theorem counted_alloc_entry {v : Nat} {s : Chan} {c : InvokeCtx} (h : Counted v s)
    (hc : s.ctx c.ptr = some c) (hp : c.phase = .built) (hfree : c.vfl = v → hasFreeEntry s c) :
    Counted v (context_alloc_entry s c) := by
  unfold context_alloc_entry
  dsimp only
  split
  · rename_i ii _
    have hset : c.vfl = v → Settled (c.enter (make_ctxid (s.jobid + 1) ii c.isasyncjob)) := by
      intro hv
      have hn : c.hn = .fake := (h.settled _ _ hc hv).1.mpr (Or.inl hp)
      simp [Settled, InvokeCtx.enter, hn]
    exact (h.setCtx (f := .enter (make_ctxid (s.jobid + 1) ii c.isasyncjob)) hc (fun _ => rfl)
      (fun _ => rfl) (fun _ => rfl) hset).alike ⟨fun _ => rfl, fun _ => ⟨rfl, rfl, rfl⟩⟩
  · rename_i hfull
    refine (h.setCtx (f := .goto .dying) hc (fun _ => rfl) (fun _ => rfl) (fun _ => rfl) ?_).alike
      ⟨fun _ => rfl, fun _ => ⟨rfl, rfl, rfl⟩⟩
    intro hv
    obtain ⟨ii, hlo, hhi, hnone⟩ := hfree hv
    exact absurd hnone (firstFree_none hfull ii hlo hhi)

/-- A context that is on no list stays away from both when they are searched for it. -/
theorem Counted.not_mem {v : Nat} {s : Chan} {c : InvokeCtx} (h : Counted v s)
    (hc : s.ctx c.ptr = some c) :
    (c.hn ≠ .pending → c.ptr ∉ (s.clst v).pending) ∧
      (c.hn ≠ .interrupted → c.ptr ∉ (s.clst v).interrupted) := by
  constructor
  · intro hn hm
    obtain ⟨d, hd, _, hdn⟩ := (h.pending _).mp hm
    rw [hc] at hd
    cases hd
    exact hn hdn
  · intro hn hm
    obtain ⟨d, hd, _, hdn⟩ := (h.interrupted _).mp hm
    rw [hc] at hd
    cases hd
    exact hn hdn

theorem counted_alloc_list {v : Nat} {s : Chan} {c : InvokeCtx} (h : Counted v s)
    (hc : s.ctx c.ptr = some c) (hp : c.phase = .tabled) : Counted v (context_alloc_list s c) := by
  have hfake : c.vfl = v → c.hn = .fake := fun hv => (h.settled _ _ hc hv).1.mpr (Or.inr hp)
  refine h.relink hc (fun _ => rfl) (fun _ => rfl) ?_ ?_ ?_ ?_
  · intro _
    simp [Settled]
  · intro hv
    have := (h.not_mem hc).1 (by rw [hfake hv]; simp)
    simp [relist, List.erase_of_not_mem this]
  · intro hv
    have := (h.not_mem hc).2 (by rw [hfake hv]; simp)
    simp [relist, List.erase_of_not_mem this]
  · intro hv
    simp [hfake hv, linked]

theorem counted_save_interrupted {v : Nat} {s : Chan} {c : InvokeCtx} (h : Counted v s)
    (hc : s.ctx c.ptr = some c) (hp : c.phase = .live) (hn : c.hn = .pending) :
    Counted v (context_save_interrupted s c) := by
  refine h.relink hc (fun _ => rfl) (fun _ => rfl) ?_ ?_ ?_ ?_
  · intro _
    simp [Settled, hp]
  · intro _
    simp [relist, hlist_del]
  · intro _
    simp [relist, hlist_del]
  · intro _
    simp [hn, linked, hlist_del]

theorem counted_restore_interrupted {v : Nat} {s : Chan} {c : InvokeCtx} (h : Counted v s)
    (hc : s.ctx c.ptr = some c) (hp : c.phase = .live) (hn : c.hn = .interrupted) :
    Counted v (context_restore_interrupted s c) := by
  refine h.relink hc (fun _ => rfl) (fun _ => rfl) ?_ ?_ ?_ ?_
  · intro _
    simp [Settled, hp]
  · intro _
    simp [relist, hlist_del]
  · intro _
    simp [relist, hlist_del]
  · intro _
    simp [hn, linked, hlist_del]

theorem counted_free_entry {v : Nat} {s : Chan} {c : InvokeCtx} (h : Counted v s)
    (hc : s.ctx c.ptr = some c) (hp : c.phase = .dying) : Counted v (context_free_entry s c) := by
  have hgone : Counted v (s.setCtx c.ptr (.goto .unlinked)) := by
    refine h.setCtx hc (fun _ => rfl) (fun _ => rfl) (fun _ => rfl) ?_
    intro hv
    have := (h.settled _ _ hc hv).1
    rw [hp] at this
    simpa [Settled, InvokeCtx.goto] using this
  refine hgone.alike ⟨fun q => by rw [ctx_free_entry], fun _ => ?_⟩
  unfold SameLists
  rw [clst_free_entry]
  exact ⟨rfl, rfl, rfl⟩

/-- context_free counts a hashed node off. In a run of orderly steps it is on a list. -/
theorem counted_free_list {v : Nat} {s : Chan} {c : InvokeCtx} (h : Counted v s)
    (hc : s.ctx c.ptr = some c) (hp : c.phase = .unlinked) : Counted v (context_free_list s c) := by
  have hreal : c.vfl = v → c.hn ≠ .fake := by
    intro hv he
    have := (h.settled _ _ hc hv).1.mp he
    rw [hp] at this
    simp at this
  unfold context_free_list
  split
  · rename_i hun
    have hn : c.hn = .unhashed := by simpa [hlist_unhashed] using hun
    refine h.setCtx hc (fun _ => rfl) (fun _ => rfl) (fun _ => rfl) ?_
    intro _
    simp [Settled, InvokeCtx.goto, hn]
  · rename_i hun
    have hn : c.hn ≠ .unhashed := by simpa [hlist_unhashed] using hun
    refine h.relink hc (fun _ => rfl) (fun _ => rfl) ?_ ?_ ?_ ?_
    · intro _
      simp [Settled]
    · intro _
      simp [relist, hlist_del]
    · intro _
      simp [relist, hlist_del]
    · intro hv
      have hone : linked c.hn = 1 := by
        have hf := hreal hv
        generalize c.hn = n at hf hn ⊢
        cases n
        · exact absurd rfl hf
        · rfl
        · rfl
        · exact absurd rfl hn
      rw [hone]
      exact (sub_add_cancel _ _).trans (by simp [linked])

theorem counted_free_end {v : Nat} {s : Chan} {c : InvokeCtx} (h : Counted v s)
    (hc : s.ctx c.ptr = some c) (hp : c.phase = .delisted) : Counted v (context_free_end s c) := by
  have hgone : (context_free_end s c).ctx c.ptr = none :=
    lookup_eq_none.mpr (fun x hx => (mem_remove.mp hx).2)
  refine h.keep (p := c.ptr) (fun q hq => lookup_remove_ne hq) ⟨rfl, rfl, rfl⟩ ?_ ?_
  · intro n hn
    constructor
    · rintro ⟨d, hd, _⟩
      rw [hgone] at hd
      cases hd
    · rintro ⟨d, hd, hdv, hdn⟩
      rw [hc] at hd
      cases hd
      have hun := (h.settled _ _ hc hdv).2 hp
      rcases hn with rfl | rfl <;> rw [hun] at hdn <;> cases hdn
  · intro d hd
    rw [hgone] at hd
    cases hd

/-- Every step but the failure of a context_alloc keeps the count of the session. -/
theorem step_counted {sh : AdsprpcShared} (v : Nat) (s : Chan) (a : Act) (t : Chan)
    (h : Counted v s) (hok : NoFailedAlloc v s a) (ht : step sh s a = some t) : Counted v t := by
  cases a with
  | alloc_begin p vfl handle k b => exact counted_alloc_begin h ht
  | response r =>
    cases ht
    exact h.alike (alike_response sh s r)
  | alloc_fail p =>
    obtain ⟨c, rfl, hc, _, rfl⟩ := onCtx_at ht
    exact h.setCtx hc (fun _ => rfl) (fun _ => rfl) (fun _ => rfl) (fun hv => absurd hv (hok c hc))
  | alloc_entry p =>
    obtain ⟨c, rfl, hc, hp, rfl⟩ := onCtx_at ht
    exact counted_alloc_entry h hc (by simpa using hp) (hok c hc)
  | alloc_list p =>
    obtain ⟨c, hc, hp, rfl⟩ := onCtx_some ht
    exact counted_alloc_list h hc (by simpa using hp)
  | save_interrupted p =>
    obtain ⟨c, hc, hp, rfl⟩ := onCtx_some ht
    have hp : c.phase = .live ∧ c.hn = .pending := by simpa using hp
    exact counted_save_interrupted h hc hp.1 hp.2
  | restore_interrupted p =>
    obtain ⟨c, hc, hp, rfl⟩ := onCtx_some ht
    have hp : c.phase = .live ∧ c.hn = .interrupted := by simpa using hp
    exact counted_restore_interrupted h hc hp.1 hp.2
  | dtor p =>
    obtain ⟨c, rfl, hc, _, rfl⟩ := onCtx_at ht
    have hv := hok c hc
    exact h.relink hc (fun _ => rfl) (fun _ => rfl) (fun he => absurd he hv)
      (fun he => absurd he hv) (fun he => absurd he hv) (fun he => absurd he hv)
  | free p =>
    obtain ⟨c, hc, hp, rfl⟩ := onCtx_some ht
    refine h.setCtx hc (fun _ => rfl) (fun _ => rfl) (fun _ => rfl) ?_
    intro hv
    have := (h.settled _ _ hc hv).1
    rw [show c.phase = .live by simpa using hp] at this
    simpa [Settled, InvokeCtx.goto] using this
  | free_entry p =>
    obtain ⟨c, hc, hp, rfl⟩ := onCtx_some ht
    exact counted_free_entry h hc (by simpa using hp)
  | free_list p =>
    obtain ⟨c, hc, hp, rfl⟩ := onCtx_some ht
    exact counted_free_list h hc (by simpa using hp)
  | free_end p =>
    obtain ⟨c, hc, hp, rfl⟩ := onCtx_some ht
    exact counted_free_end h hc (by simpa using hp)

/-! ## The laws -/

/-- In every run in which no context_alloc of a session fails after it has made its context,
the session counts the contexts on its two lists, whatever the other sessions do. -/
theorem the_count_is_the_two_lists {sh : AdsprpcShared} {v : Nat} {s : Chan}
    (hr : ReachableUnder (step sh) (NoFailedAlloc v) init s) : CountsItsLists v s :=
  (hr.inv (Counted v) (step_counted v) (counted_init v)).count

/-- One context that is interrupted. -/
theorem one_interrupted_context_counts_one :
    ∃ s, run (step sampleShared) init
        [.alloc_begin 7 0 30 false false, .alloc_entry 7, .alloc_list 7,
          .save_interrupted 7] = some s ∧
      (s.clst 0).pending = [] ∧ (s.clst 0).interrupted = [7] ∧ CountsItsLists 0 s := by
  refine ⟨_, rfl, rfl, rfl, ?_⟩
  apply @the_count_is_the_two_lists sampleShared
  refine ⟨[.alloc_begin 7 0 30 false false, .alloc_entry 7, .alloc_list 7,
          .save_interrupted 7], ?_, rfl⟩
  refine .cons trivial rfl ?_
  refine ⟨fun c hc _ => ?_, fun t ht => ?_⟩
  · cases hc
    exact ⟨70, by decide, by decide, rfl⟩
  · exact ⟨trivial, fun _ _ => ⟨trivial, fun _ _ => trivial⟩⟩

set_option maxRecDepth 20000 in
/-- A context_alloc that cannot read the arguments of its user counts a context off that it
never counted: the session then has no context, and its count is 2^32 - 1. -/
theorem a_failed_alloc_wraps_the_count :
    ∃ s, run (step sampleShared) init
        [.alloc_begin 7 0 30 false false, .alloc_fail 7, .free_entry 7, .free_list 7,
          .free_end 7] = some s ∧
      (s.clst 0).pending = [] ∧ (s.clst 0).interrupted = [] ∧
      (s.clst 0).num_active_ctxs = 4294967295#32 ∧ ¬ CountsItsLists 0 s := by
  refine ⟨_, rfl, rfl, rfl, by decide, ?_⟩
  unfold CountsItsLists
  decide

end virtual_fastrpc.active_ctxs
