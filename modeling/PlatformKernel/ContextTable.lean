-- The context table of a hybrid channel: how context_alloc gives a context an
-- entry and an id, how context_free takes the entry back, and how a response
-- of the DSP finds its context. Each step is one critical section of the code.
import Mathlib.Data.BitVec
import PlatformKernel.Lib.Runs
import PlatformKernel.Lib.Keyed
import PlatformKernel.Lib.Slots
import PlatformKernel.AdsprpcShared

namespace virtual_fastrpc.context_table

open keyed slots step_runs

/-! ## The constants of the hybrid driver -/

/-- `FASTRPC_CTX_MAX` of adsprpc_shared.h. -/
def FASTRPC_CTX_MAX : Nat := 1024
def MAX_PENDING_CTX_PER_SESSION : Nat := 64
def NUM_KERNEL_AND_STATIC_ONLY_CONTEXTS : Nat := 70
def FASTRPC_STATIC_HANDLE_MAX : Nat := 20
def FASTRPC_CTX_JOB_TYPE_POS : Nat := 4
def FASTRPC_CTX_TABLE_IDX_POS : Nat := 6
def FASTRPC_CTX_JOBID_POS : Nat := 16
def FASTRPC_CTX_MAGIC : BitVec 32 := 0xbeeddeed
def FASTRPC_NOTIF_CTX_RESERVED : BitVec 64 := 0xABCDABCD
def FASTRPC_RSP_VERSION2 : BitVec 32 := 2

def FASTRPC_CTX_TABLE_IDX_MASK : BitVec 64 :=
  BitVec.ofNat 64 ((FASTRPC_CTX_MAX - 1) <<< FASTRPC_CTX_TABLE_IDX_POS)

/-- The PD type bits of the context word of a response. -/
def CONTEXT_PD_CHECK : BitVec 64 := 3

def GET_CTXID_FROM_RSP_CTX (rsp_ctx : BitVec 64) : BitVec 64 := rsp_ctx &&& ~~~CONTEXT_PD_CHECK

def GET_TABLE_IDX_FROM_CTXID (ctxid : BitVec 64) : Nat :=
  ((ctxid &&& FASTRPC_CTX_TABLE_IDX_MASK) >>> FASTRPC_CTX_TABLE_IDX_POS).toNat

/-! ## The state of a channel -/

/-- Where the list node `hn` of a context is. A fake node is in no list, but counts as
hashed. -/
inductive Node
  | fake | pending | interrupted | unhashed
  deriving DecidableEq, Repr

def hlist_unhashed (n : Node) : Bool := n == .unhashed

/-- How far context_alloc or context_free has come with a context. -/
inductive Phase
  /-- context_alloc has filled it, and it has no entry yet. -/
  | built
  /-- It has its entry, and is on no list yet. -/
  | tabled
  /-- context_alloc has returned it. -/
  | live
  /-- context_free is called on it. -/
  | dying
  /-- context_free has taken its entry back. -/
  | unlinked
  /-- context_free has taken it from its list. -/
  | delisted
  deriving DecidableEq, Repr

structure InvokeCtx where
  ptr : Nat
  vfl : Nat
  handle : BitVec 32
  kernel_msg : Bool
  isasyncjob : Bool
  ctxid : BitVec 64
  magic : BitVec 32
  retval : Int
  rsp_flags : BitVec 32
  early_wake_time : BitVec 32
  is_work_done : Bool
  is_early_wakeup : Bool
  work : Nat
  asyncn : Node
  hn : Node
  phase : Phase
  deriving DecidableEq, Repr

def InvokeCtx.goto (ph : Phase) (x : InvokeCtx) : InvokeCtx := { x with phase := ph }

/-- The context gets its id with its entry. -/
def InvokeCtx.enter (id : BitVec 64) (x : InvokeCtx) : InvokeCtx :=
  { x with ctxid := id, phase := .tabled }

structure CtxLst where
  pending : List Nat
  interrupted : List Nat
  async_queue : List Nat
  async_queue_job_count : Nat
  num_active_ctxs : BitVec 32
  deriving DecidableEq, Repr

/-- A channel with its contexts, and the lists of the sessions on it. The last two fields
are for the laws only: how often `jobid` was raised, and the number and the id of each
context that got an entry. -/
structure Chan where
  ctxtable : Nat → Option Nat
  jobid : BitVec 64
  ctxs : List InvokeCtx
  clst : Nat → CtxLst
  duplicate_rsp_err_cnt : Nat
  attempts : Nat
  issued : List (Nat × BitVec 64)

def context_list_ctor : CtxLst := ⟨[], [], [], 0, 0⟩

/-- The channel after hfastrpc_init. -/
def init : Chan := ⟨empty, 1, [], fun _ => context_list_ctor, 0, 0, []⟩

def Chan.ctx (s : Chan) (p : Nat) : Option InvokeCtx := lookup InvokeCtx.ptr s.ctxs p

def Chan.setCtx (s : Chan) (p : Nat) (f : InvokeCtx → InvokeCtx) : Chan :=
  { s with ctxs := update InvokeCtx.ptr s.ctxs p f }

def Chan.setClst (s : Chan) (v : Nat) (f : CtxLst → CtxLst) : Chan :=
  { s with clst := fun w => if w = v then f (s.clst w) else s.clst w }

/-! ## context_alloc -/

/-- A kernel message or a call on a static handle. -/
def critical (kernel_msg : Bool) (handle : BitVec 32) : Bool :=
  kernel_msg || decide (handle.toNat < FASTRPC_STATIC_HANDLE_MAX)

/-- context_alloc up to the ctxlock: the quota check, and a new context at an address that
is not in use. -/
def context_alloc_begin (sh : AdsprpcShared) (s : Chan) (p vfl : Nat) (handle : BitVec 32)
    (kernel_msg isasyncjob : Bool) : Option Chan :=
  if MAX_PENDING_CTX_PER_SESSION < (s.clst vfl).num_active_ctxs.toNat ∧
      critical kernel_msg handle = false then some s
  else if (s.ctx p).isSome then none
  else
    some { s with ctxs :=
      { ptr := p, vfl, handle, kernel_msg, isasyncjob, ctxid := 0, magic := FASTRPC_CTX_MAGIC,
        retval := -1, rsp_flags := sh.NORMAL_RESPONSE, early_wake_time := 0,
        is_work_done := false, is_early_wakeup := false, work := 0, asyncn := .fake, hn := .fake,
        phase := .built }
      :: s.ctxs }

/-- The id of a context: its job, its entry, and its type. -/
def make_ctxid (jobid : BitVec 64) (ii : Nat) (isasyncjob : Bool) : BitVec 64 :=
  (jobid <<< FASTRPC_CTX_JOBID_POS) |||
    BitVec.ofNat 64 (ii <<< FASTRPC_CTX_TABLE_IDX_POS) |||
    BitVec.ofNat 64 (isasyncjob.toNat <<< FASTRPC_CTX_JOB_TYPE_POS)

/-- The ctxlock section of context_alloc. -/
def context_alloc_entry (s : Chan) (c : InvokeCtx) : Chan :=
  let jobid := s.jobid + 1
  let s := { s with jobid, attempts := s.attempts + 1 }
  let lo := if critical c.kernel_msg c.handle then 0 else NUM_KERNEL_AND_STATIC_ONLY_CONTEXTS
  match firstFree s.ctxtable lo FASTRPC_CTX_MAX with
  | some ii =>
    let id := make_ctxid jobid ii c.isasyncjob
    { s.setCtx c.ptr (.enter id) with
      ctxtable := put s.ctxtable ii (some c.ptr)
      issued := (s.attempts, id) :: s.issued }
  | none => s.setCtx c.ptr (.goto .dying)

/-- The last hlock section of context_alloc. -/
def context_alloc_list (s : Chan) (c : InvokeCtx) : Chan :=
  (s.setCtx c.ptr (fun x => { x with hn := .pending, phase := .live })).setClst c.vfl (fun l =>
    { l with pending := c.ptr :: l.pending, num_active_ctxs := l.num_active_ctxs + 1 })

/-! ## The lists of a session -/

def hlist_del (p : Nat) (l : CtxLst) : CtxLst :=
  { l with pending := l.pending.erase p, interrupted := l.interrupted.erase p }

def context_save_interrupted (s : Chan) (c : InvokeCtx) : Chan :=
  (s.setCtx c.ptr (fun x => { x with hn := .interrupted })).setClst c.vfl (fun l =>
    { hlist_del c.ptr l with interrupted := c.ptr :: (hlist_del c.ptr l).interrupted })

/-- The move that context_restore_interrupted makes for the context it picks. -/
def context_restore_interrupted (s : Chan) (c : InvokeCtx) : Chan :=
  (s.setCtx c.ptr (fun x => { x with hn := .pending })).setClst c.vfl (fun l =>
    { hlist_del c.ptr l with pending := c.ptr :: (hlist_del c.ptr l).pending })

/-- One turn of hfastrpc_context_list_dtor before it calls context_free. -/
def hfastrpc_context_list_dtor_turn (s : Chan) (c : InvokeCtx) : Chan :=
  (s.setCtx c.ptr (fun x => { x with hn := .unhashed, phase := .dying })).setClst c.vfl
    (hlist_del c.ptr)

/-! ## context_free -/

/-- The ctxlock section of context_free: the entry that the id names, or else the first
entry that holds the context. -/
def context_free_entry (s : Chan) (c : InvokeCtx) : Chan :=
  let i := GET_TABLE_IDX_FROM_CTXID c.ctxid
  let s := s.setCtx c.ptr (.goto .unlinked)
  if i < FASTRPC_CTX_MAX ∧ s.ctxtable i = some c.ptr then
    { s with ctxtable := put s.ctxtable i none }
  else
    match firstHolding s.ctxtable c.ptr FASTRPC_CTX_MAX with
    | some j => { s with ctxtable := put s.ctxtable j none }
    | none => s

/-- The hlock section of context_free. -/
def context_free_list (s : Chan) (c : InvokeCtx) : Chan :=
  if hlist_unhashed c.hn then s.setCtx c.ptr (.goto .delisted)
  else
    (s.setCtx c.ptr (fun x => { x with hn := .unhashed, phase := .delisted })).setClst c.vfl
      (fun l => { hlist_del c.ptr l with num_active_ctxs := l.num_active_ctxs - 1 })

/-- The end of context_free. -/
def context_free_end (s : Chan) (c : InvokeCtx) : Chan :=
  { s with ctxs := remove InvokeCtx.ptr s.ctxs c.ptr }

/-! ## The responses of the DSP -/

/-- A response as the driver reads it: its length, and the fields of the three structures
that it may be. -/
structure RspData where
  len : Nat
  ctx : BitVec 64
  retval : Int
  flags : BitVec 32
  early_wake_time : BitVec 32
  version : BitVec 32
  type : BitVec 32
  pid : Int
  status : BitVec 32
  deriving DecidableEq, Repr

/-- What became of a response. -/
inductive RspOutcome
  | remote_signal (msg : BitVec 64)
  | pd_status (pid : Int) (status : BitVec 32)
  | invalid
  | ignored
  | applied (p : Nat)
  deriving DecidableEq, Repr

def fastrpc_queue_completed_async_job (s : Chan) (c : InvokeCtx) : Chan :=
  if c.is_early_wakeup then s
  else if hlist_unhashed c.asyncn then s
  else
    (s.setCtx c.ptr (fun x => { x with is_early_wakeup := true })).setClst c.vfl (fun l =>
      { l with
        async_queue := c.ptr :: l.async_queue
        async_queue_job_count := l.async_queue_job_count + 1 })

def complete (x : InvokeCtx) : InvokeCtx := { x with work := x.work + 1 }

def context_notify_user (sh : AdsprpcShared) (s : Chan) (c : InvokeCtx) (retval : Int)
    (rsp_flags early_wake_time : BitVec 32) : Chan :=
  let s := s.setCtx c.ptr (fun x => { x with retval, rsp_flags })
  if rsp_flags = sh.NORMAL_RESPONSE ∨ rsp_flags = sh.COMPLETE_SIGNAL then
    let s := s.setCtx c.ptr (fun x => { x with is_work_done := true })
    let s := if c.isasyncjob then fastrpc_queue_completed_async_job s c else s
    s.setCtx c.ptr complete
  else if rsp_flags = sh.USER_EARLY_SIGNAL then
    let s := s.setCtx c.ptr (fun x => { x with early_wake_time })
    if c.isasyncjob then s else s.setCtx c.ptr complete
  else if rsp_flags = sh.EARLY_RESPONSE then
    if c.isasyncjob then fastrpc_queue_completed_async_job s c else s.setCtx c.ptr complete
  else s

def fastrpc_handle_rpc_response (sh : AdsprpcShared) (s : Chan) (r : RspData) :
    Chan × RspOutcome :=
  if r.len = 8 then (s, .remote_signal r.ctx)
  else if r.len < sh.sizeof_smq_invoke_rsp then (s, .invalid)
  else if r.ctx = FASTRPC_NOTIF_CTX_RESERVED then
    if r.type = sh.STATUS_RESPONSE ∧ sh.sizeof_smq_notif_rspv3 ≤ r.len then
      (s, .pd_status r.pid r.status)
    else (s, .invalid)
  else
    let rspv2 := decide (sh.sizeof_smq_invoke_rspv2 ≤ r.len)
    let rsp_flags := if rspv2 then r.flags else 0
    let early_wake_time := if rspv2 then r.early_wake_time else 0
    let index := GET_TABLE_IDX_FROM_CTXID r.ctx
    if FASTRPC_CTX_MAX ≤ index then (s, .invalid)
    else
      match (s.ctxtable index).bind s.ctx with
      | none => ({ s with duplicate_rsp_err_cnt := s.duplicate_rsp_err_cnt + 1 }, .ignored)
      | some c =>
        if c.ctxid = GET_CTXID_FROM_RSP_CTX r.ctx ∧ c.magic = FASTRPC_CTX_MAGIC then
          if rspv2 ∧ r.version ≠ FASTRPC_RSP_VERSION2 then (s, .invalid)
          else (context_notify_user sh s c r.retval rsp_flags early_wake_time, .applied c.ptr)
        else if rsp_flags = sh.COMPLETE_SIGNAL ∨ c.ctxid ≠ GET_CTXID_FROM_RSP_CTX r.ctx then
          ({ s with duplicate_rsp_err_cnt := s.duplicate_rsp_err_cnt + 1 }, .ignored)
        else (s, .invalid)

/-! ## The machine -/

inductive Act
  | alloc_begin (p vfl : Nat) (handle : BitVec 32) (kernel_msg isasyncjob : Bool)
  /-- An exit of context_alloc before the table: it calls context_free. -/
  | alloc_fail (p : Nat)
  | alloc_entry (p : Nat)
  | alloc_list (p : Nat)
  | save_interrupted (p : Nat)
  | restore_interrupted (p : Nat)
  | dtor (p : Nat)
  /-- A call of context_free on a context that context_alloc has returned. -/
  | free (p : Nat)
  | free_entry (p : Nat)
  | free_list (p : Nat)
  | free_end (p : Nat)
  | response (r : RspData)
  deriving DecidableEq, Repr

/-- A step on the context at `p`, possible when it is in one of these phases. -/
def onCtx (s : Chan) (p : Nat) (ok : InvokeCtx → Bool) (f : InvokeCtx → Chan) : Option Chan :=
  match s.ctx p with
  | some c => if ok c then some (f c) else none
  | none => none

def step (sh : AdsprpcShared) (s : Chan) : Act → Option Chan
  | .alloc_begin p vfl handle kernel_msg isasyncjob =>
    context_alloc_begin sh s p vfl handle kernel_msg isasyncjob
  | .alloc_fail p => onCtx s p (·.phase == .built) fun c =>
    s.setCtx c.ptr (.goto .dying)
  | .alloc_entry p => onCtx s p (·.phase == .built) (context_alloc_entry s)
  | .alloc_list p => onCtx s p (·.phase == .tabled) (context_alloc_list s)
  | .save_interrupted p => onCtx s p (fun c => c.phase == .live && c.hn == .pending)
    (context_save_interrupted s)
  | .restore_interrupted p => onCtx s p (fun c => c.phase == .live && c.hn == .interrupted)
    (context_restore_interrupted s)
  | .dtor p => onCtx s p (·.phase == .live) (hfastrpc_context_list_dtor_turn s)
  | .free p => onCtx s p (·.phase == .live) fun c =>
    s.setCtx c.ptr (.goto .dying)
  | .free_entry p => onCtx s p (·.phase == .dying) (context_free_entry s)
  | .free_list p => onCtx s p (·.phase == .unlinked) (context_free_list s)
  | .free_end p => onCtx s p (·.phase == .delisted) (context_free_end s)
  | .response r => some (fastrpc_handle_rpc_response sh s r).1

/-! ## The ids -/

/-- The part of an id above its entry is the job of the context. -/
theorem make_ctxid_job (jobid : BitVec 64) (ii : Nat) (b : Bool) (h : ii < FASTRPC_CTX_MAX) :
    (make_ctxid jobid ii b >>> FASTRPC_CTX_JOBID_POS).toNat = jobid.toNat % 2 ^ 48 := by
  have hii : ii <<< 6 < 2 ^ 16 := by
    rw [Nat.shiftLeft_eq]; unfold FASTRPC_CTX_MAX at h; omega
  have hb : b.toNat <<< 4 < 2 ^ 16 := by cases b <;> decide
  have hlow : ∀ n < 2 ^ 16, BitVec.ofNat 64 n >>> 16 = 0#64 := by
    intro n hn
    apply BitVec.eq_of_toNat_eq
    rw [BitVec.toNat_ushiftRight, BitVec.toNat_ofNat, Nat.mod_eq_of_lt (by omega),
      Nat.shiftRight_eq_div_pow, Nat.div_eq_of_lt hn]
    rfl
  have hhigh : ((jobid <<< 16) >>> 16).toNat = jobid.toNat % 2 ^ 48 := by
    rw [BitVec.toNat_ushiftRight, BitVec.toNat_shiftLeft, Nat.shiftLeft_eq,
      Nat.shiftRight_eq_div_pow]
    omega
  unfold make_ctxid FASTRPC_CTX_JOBID_POS FASTRPC_CTX_TABLE_IDX_POS FASTRPC_CTX_JOB_TYPE_POS
  rw [BitVec.ushiftRight_or_distrib, BitVec.ushiftRight_or_distrib, hlow _ hii, hlow _ hb,
    BitVec.or_zero, BitVec.or_zero]
  exact hhigh

/-- Two jobs that the channel gives out in its first 2^48 have different ids. -/
theorem make_ctxid_ne {n m i j : Nat} {a b : Bool} (hn : n ≤ 2 ^ 48) (hnm : m < n)
    (hi : i < FASTRPC_CTX_MAX) (hj : j < FASTRPC_CTX_MAX) (hm : 1 ≤ m) :
    make_ctxid (BitVec.ofNat 64 (1 + n)) i a ≠ make_ctxid (BitVec.ofNat 64 (1 + m)) j b := by
  intro he
  have h1 := make_ctxid_job (BitVec.ofNat 64 (1 + n)) i a hi
  have h2 := make_ctxid_job (BitVec.ofNat 64 (1 + m)) j b hj
  rw [he, h2, BitVec.toNat_ofNat, BitVec.toNat_ofNat] at h1
  omega

/-- The entry of an id is the entry that it was made with. -/
theorem tableIdx_make_ctxid (jobid : BitVec 64) {ii : Nat} (b : Bool) (h : ii < FASTRPC_CTX_MAX) :
    GET_TABLE_IDX_FROM_CTXID (make_ctxid jobid ii b) = ii := by
  have hii : ii < 2 ^ 10 := h
  apply Nat.eq_of_testBit_eq
  intro k
  unfold GET_TABLE_IDX_FROM_CTXID make_ctxid FASTRPC_CTX_TABLE_IDX_MASK FASTRPC_CTX_MAX
    FASTRPC_CTX_JOBID_POS FASTRPC_CTX_TABLE_IDX_POS FASTRPC_CTX_JOB_TYPE_POS
  rw [← BitVec.getLsbD]
  have hmask : (BitVec.ofNat 64 ((1024 - 1) <<< 6)).getLsbD (6 + k) = decide (k < 10) := by
    have hones : Nat.testBit (1024 - 1) k = decide (k < 10) := Nat.testBit_two_pow_sub_one 10 k
    rw [BitVec.getLsbD_ofNat, Nat.testBit_shiftLeft, Nat.add_sub_cancel_left, hones]
    by_cases hk : k < 10
    · simp [hk, show 6 + k < 64 by omega]
    · simp [hk]
  have htype : (BitVec.ofNat 64 (b.toNat <<< 4)).getLsbD (6 + k) = false := by
    have hsmall : b.toNat.testBit (2 + k) = false := by
      apply Nat.testBit_lt_two_pow
      have h2 : 2 ^ 1 ≤ 2 ^ (2 + k) := Nat.pow_le_pow_right (by omega) (by omega)
      have := b.toNat_le
      omega
    rw [BitVec.getLsbD_ofNat, Nat.testBit_shiftLeft, show 6 + k - 4 = 2 + k by omega, hsmall]
    simp
  have hidx : (BitVec.ofNat 64 (ii <<< 6)).getLsbD (6 + k) =
      (decide (6 + k < 64) && ii.testBit k) := by
    simp [BitVec.getLsbD_ofNat, Nat.testBit_shiftLeft]
  simp only [BitVec.getLsbD_ushiftRight, BitVec.getLsbD_and, BitVec.getLsbD_or, hmask, htype, hidx,
    BitVec.getLsbD_shiftLeft]
  by_cases hk : k < 10
  · simp [hk, show 6 + k < 16 by omega, show 6 + k < 64 by omega]
  · have hhigh : 2 ^ 10 ≤ 2 ^ k := Nat.pow_le_pow_right (by omega) (by omega)
    have : ii.testBit k = false := Nat.testBit_lt_two_pow (by omega)
    simp [hk, this]
/-! ## The invariant of a channel -/

/-- The phases in which a context may have an entry. -/
def mayHaveEntry : Phase → Bool
  | .tabled | .live | .dying => true
  | .built | .unlinked | .delisted => false

structure Inv (s : Chan) : Prop where
  unique : Unique InvokeCtx.ptr s.ctxs
  entry : ∀ i p, s.ctxtable i = some p → i < FASTRPC_CTX_MAX ∧
    ∃ c, s.ctx p = some c ∧ mayHaveEntry c.phase = true ∧ ∃ n, (n, c.ctxid) ∈ s.issued
  one_entry : ∀ i j p, s.ctxtable i = some p → s.ctxtable j = some p → i = j
  jobid : s.jobid = BitVec.ofNat 64 (1 + s.attempts)
  issued : ∀ e ∈ s.issued, 1 ≤ e.1 ∧ e.1 ≤ s.attempts ∧
    ∃ ii < FASTRPC_CTX_MAX, ∃ b, e.2 = make_ctxid (BitVec.ofNat 64 (1 + e.1)) ii b
  ordered : s.issued.Pairwise (fun a b => b.1 < a.1)

theorem inv_init : Inv init where
  unique := List.nodup_nil
  entry := by intro i p h; cases h
  one_entry := by intro i j p h; cases h
  jobid := rfl
  issued := by intro e he; cases he
  ordered := List.Pairwise.nil

/-- The ids of the contexts that got an entry are pairwise different. -/
theorem Inv.ids_nodup {s : Chan} (h : Inv s) (ha : s.attempts ≤ 2 ^ 48) :
    (s.issued.map Prod.snd).Nodup := by
  unfold List.Nodup
  rw [List.pairwise_map]
  refine (List.Pairwise.and_mem.mp h.ordered).imp ?_
  rintro a b ⟨hma, hmb, hab⟩
  obtain ⟨_, ha2, i, hi, x, hx⟩ := h.issued a hma
  obtain ⟨hb1, _, j, hj, y, hy⟩ := h.issued b hmb
  rw [hx, hy]
  exact make_ctxid_ne (by omega) hab hi hj hb1

/-! ## What each step keeps -/

theorem ctx_setCtx_self {s : Chan} {p : Nat} {f : InvokeCtx → InvokeCtx}
    (hptr : ∀ x, (f x).ptr = x.ptr) : (s.setCtx p f).ctx p = (s.ctx p).map f :=
  lookup_update_self hptr

theorem ctx_setCtx_ne {s : Chan} {p q : Nat} {f : InvokeCtx → InvokeCtx}
    (hptr : ∀ x, (f x).ptr = x.ptr) (h : q ≠ p) : (s.setCtx p f).ctx q = s.ctx q :=
  lookup_update_ne hptr h

theorem ctx_enter_self (s : Chan) (p : Nat) (id : BitVec 64) :
    (s.setCtx p (.enter id)).ctx p = (s.ctx p).map (.enter id) := ctx_setCtx_self (fun _ => rfl)

theorem ctx_enter_ne (s : Chan) {p q : Nat} (id : BitVec 64) (h : q ≠ p) :
    (s.setCtx p (.enter id)).ctx q = s.ctx q := ctx_setCtx_ne (fun _ => rfl) h

theorem Inv.no_entry {s : Chan} (h : Inv s) {p : Nat} {c : InvokeCtx} (hc : s.ctx p = some c)
    (hp : mayHaveEntry c.phase = false) : ∀ i, s.ctxtable i ≠ some p := by
  intro i hi
  obtain ⟨_, d, hd, hdp, _⟩ := h.entry i p hi
  rw [hc] at hd
  cases hd
  rw [hp] at hdp
  cases hdp

/-- A change of one context that keeps its address and its id keeps the invariant, when the
context may keep its entry or has none. -/
theorem Inv.setCtx {s : Chan} (h : Inv s) (p : Nat) (f : InvokeCtx → InvokeCtx)
    (hptr : ∀ x, (f x).ptr = x.ptr) (hid : ∀ x, (f x).ctxid = x.ctxid)
    (hph : ∀ c, s.ctx p = some c → mayHaveEntry c.phase = true →
      mayHaveEntry (f c).phase = true ∨ ∀ i, s.ctxtable i ≠ some p) :
    Inv (s.setCtx p f) := by
  refine ⟨h.unique.update hptr, ?_, h.one_entry, h.jobid, h.issued, h.ordered⟩
  intro i q hq
  obtain ⟨hi, c, hc, hcp, n, hn⟩ := h.entry i q hq
  refine ⟨hi, ?_⟩
  by_cases hqp : q = p
  · subst hqp
    refine ⟨f c, by rw [ctx_setCtx_self hptr, hc]; rfl, ?_, n, by rw [hid]; exact hn⟩
    rcases hph c hc hcp with h1 | h1
    · exact h1
    · exact absurd hq (h1 i)
  · exact ⟨c, by rw [ctx_setCtx_ne hptr hqp]; exact hc, hcp, n, hn⟩

theorem Inv.setClst {s : Chan} (h : Inv s) (v : Nat) (f : CtxLst → CtxLst) :
    Inv (s.setClst v f) :=
  ⟨h.unique, h.entry, h.one_entry, h.jobid, h.issued, h.ordered⟩

/-- A call is rejected, or it has a new context. -/
theorem context_alloc_begin_cases {sh : AdsprpcShared} {s t : Chan} {p vfl : Nat}
    {handle : BitVec 32}
    {kernel_msg isasyncjob : Bool}
    (ht : context_alloc_begin sh s p vfl handle kernel_msg isasyncjob = some t) :
    t = s ∨
      ¬(MAX_PENDING_CTX_PER_SESSION < (s.clst vfl).num_active_ctxs.toNat ∧
        critical kernel_msg handle = false) ∧
      s.ctx p = none ∧
      t = { s with ctxs :=
        { ptr := p, vfl, handle, kernel_msg, isasyncjob, ctxid := 0, magic := FASTRPC_CTX_MAGIC,
          retval := -1, rsp_flags := sh.NORMAL_RESPONSE, early_wake_time := 0,
          is_work_done := false, is_early_wakeup := false, work := 0, asyncn := .fake, hn := .fake,
          phase := .built } :: s.ctxs } := by
  unfold context_alloc_begin at ht
  split at ht
  · cases ht
    exact Or.inl rfl
  rename_i hpass
  obtain ⟨hnew, ⟨⟩⟩ := Option.ite_none_left_eq_some.mp ht
  exact Or.inr ⟨hpass, by simpa using hnew, rfl⟩

/-- The table is all that the search for the entry changes beside the context. -/
theorem ctx_free_entry (s : Chan) (c : InvokeCtx) (q : Nat) :
    (context_free_entry s c).ctx q = (s.setCtx c.ptr (.goto .unlinked)).ctx q := by
  unfold context_free_entry
  dsimp only
  split
  · rfl
  · split <;> rfl

@[simp] theorem clst_free_entry (s : Chan) (c : InvokeCtx) :
    (context_free_entry s c).clst = s.clst := by
  unfold context_free_entry
  dsimp only
  split
  · rfl
  · split <;> rfl

@[simp] theorem issued_free_entry (s : Chan) (c : InvokeCtx) :
    (context_free_entry s c).issued = s.issued := by
  unfold context_free_entry
  dsimp only
  split
  · rfl
  · split <;> rfl

theorem inv_alloc_begin {sh : AdsprpcShared} {s t : Chan} {p vfl : Nat} {handle : BitVec 32}
    {k a : Bool} (h : Inv s)
    (ht : context_alloc_begin sh s p vfl handle k a = some t) : Inv t := by
  rcases context_alloc_begin_cases ht with rfl | ⟨_, hnone, rfl⟩
  · exact h
  · have hfresh : ∀ x ∈ s.ctxs, x.ptr ≠ p := lookup_eq_none.mp hnone
    refine ⟨h.unique.cons hfresh, ?_, h.one_entry, h.jobid, h.issued, h.ordered⟩
    intro i q hq
    obtain ⟨hi, c, hc, hrest⟩ := h.entry i q hq
    refine ⟨hi, c, ?_, hrest⟩
    have hpq : p ≠ q := by
      intro he
      subst he
      rw [hnone] at hc
      cases hc
    exact (lookup_cons_ne hpq).trans hc

theorem inv_alloc_entry {s : Chan} {c : InvokeCtx} (h : Inv s) (hc : s.ctx c.ptr = some c)
    (hp : c.phase = .built) : Inv (context_alloc_entry s c) := by
  have hno := h.no_entry hc (by rw [hp]; rfl)
  have hjob : s.jobid + 1 = BitVec.ofNat 64 (1 + (s.attempts + 1)) := by
    rw [h.jobid, ← Nat.add_assoc, BitVec.ofNat_add (1 + s.attempts) 1]
    rfl
  have hraise : Inv { s with jobid := s.jobid + 1, attempts := s.attempts + 1 } := by
    refine ⟨h.unique, h.entry, h.one_entry, hjob, ?_, h.ordered⟩
    intro e he
    obtain ⟨h1, h2, h3⟩ := h.issued e he
    exact ⟨h1, Nat.le_succ_of_le h2, h3⟩
  unfold context_alloc_entry
  dsimp only
  split
  · rename_i ii hii
    obtain ⟨_, hlt, hfree⟩ := firstFree_some hii
    refine ⟨h.unique.update (fun _ => rfl), ?_, ?_, hjob, ?_, ?_⟩
    · intro i q hq
      dsimp only at hq
      by_cases hi : i = ii
      · subst hi
        rw [put_self] at hq
        cases hq
        refine ⟨hlt, c.enter (make_ctxid (s.jobid + 1) i c.isasyncjob), ?_, rfl, _,
          List.mem_cons_self⟩
        exact (ctx_enter_self s c.ptr _).trans (by rw [hc]; rfl)
      · rw [put_ne hi] at hq
        obtain ⟨hi', d, hd, hdp, n, hn⟩ := h.entry i q hq
        have hne : q ≠ c.ptr := fun he => hno i (he ▸ hq)
        exact ⟨hi', d, (ctx_enter_ne s _ hne).trans hd, hdp, n, List.mem_cons_of_mem _ hn⟩
    · intro i j q hi hj
      dsimp only at hi hj
      by_cases h1 : i = ii <;> by_cases h2 : j = ii
      · omega
      · subst h1
        rw [put_self] at hi
        rw [put_ne h2] at hj
        cases hi
        exact absurd hj (hno j)
      · subst h2
        rw [put_self] at hj
        rw [put_ne h1] at hi
        cases hj
        exact absurd hi (hno i)
      · rw [put_ne h1] at hi
        rw [put_ne h2] at hj
        exact h.one_entry i j q hi hj
    · intro e he
      rcases List.mem_cons.mp he with rfl | he
      · exact ⟨by simp, Nat.le_refl _, ii, hlt, c.isasyncjob, by rw [hjob]⟩
      · exact hraise.issued e he
    · refine List.pairwise_cons.mpr ⟨?_, h.ordered⟩
      intro e he
      obtain ⟨_, h2, _⟩ := h.issued e he
      exact Nat.lt_succ_of_le h2
  · refine hraise.setCtx c.ptr _ (fun _ => rfl) (fun _ => rfl) ?_
    intro d hd hdp
    exact Or.inl rfl

/-- A table without one of its entries keeps the invariant. -/
theorem Inv.clear {s : Chan} (h : Inv s) (i : Nat) :
    Inv { s with ctxtable := put s.ctxtable i none } := by
  refine ⟨h.unique, ?_, ?_, h.jobid, h.issued, h.ordered⟩
  · intro j q hq
    dsimp only at hq
    by_cases hj : j = i
    · subst hj
      rw [put_self] at hq
      cases hq
    · rw [put_ne hj] at hq
      exact h.entry j q hq
  · intro j k q hj hk
    dsimp only at hj hk
    by_cases h1 : j = i
    · subst h1
      rw [put_self] at hj
      cases hj
    · by_cases h2 : k = i
      · subst h2
        rw [put_self] at hk
        cases hk
      · rw [put_ne h1] at hj
        rw [put_ne h2] at hk
        exact h.one_entry j k q hj hk

/-- context_free takes back the one entry of the context, on both of its ways. -/
theorem inv_free_entry {s : Chan} {c : InvokeCtx} (h : Inv s) : Inv (context_free_entry s c) := by
  -- the entry goes away first, so the phase may change after it
  have hgone : ∀ i, s.ctxtable i = some c.ptr →
      Inv { s.setCtx c.ptr (.goto .unlinked) with ctxtable := put s.ctxtable i none } := by
    intro i hi
    refine (h.clear i).setCtx c.ptr (.goto .unlinked) (fun _ => rfl) (fun _ => rfl) ?_
    intro d _ _
    refine Or.inr (fun j hj => ?_)
    dsimp only at hj
    by_cases hji : j = i
    · subst hji
      rw [put_self] at hj
      cases hj
    · rw [put_ne hji] at hj
      exact hji (h.one_entry j i c.ptr hj hi)
  unfold context_free_entry
  dsimp only
  split
  · rename_i hi
    exact hgone _ hi.2
  · split
    · rename_i j hj
      exact hgone j (firstHolding_some hj).2
    · rename_i hnone
      refine h.setCtx c.ptr (.goto .unlinked) (fun _ => rfl) (fun _ => rfl) ?_
      intro d _ _
      refine Or.inr (fun j hj => ?_)
      exact firstHolding_none hnone j (h.entry j c.ptr hj).1 hj

theorem inv_free_end {s : Chan} {c : InvokeCtx} (h : Inv s) (hc : s.ctx c.ptr = some c)
    (hp : c.phase = .delisted) : Inv (context_free_end s c) := by
  have hno := h.no_entry hc (by rw [hp]; rfl)
  refine ⟨h.unique.remove, ?_, h.one_entry, h.jobid, h.issued, h.ordered⟩
  intro i q hq
  obtain ⟨hi, d, hd, hrest⟩ := h.entry i q hq
  have hne : q ≠ c.ptr := fun he => hno i (he ▸ hq)
  exact ⟨hi, d, (lookup_remove_ne hne).trans hd, hrest⟩

/-- A change of a context that leaves its address, its session, its id, its node and its
phase. -/
def Quiet (f : InvokeCtx → InvokeCtx) : Prop :=
  ∀ x, (f x).ptr = x.ptr ∧ (f x).vfl = x.vfl ∧ (f x).ctxid = x.ctxid ∧ (f x).hn = x.hn ∧
    (f x).phase = x.phase

/-- The async queue of a session with one more job. -/
def queued (p : Nat) (l : CtxLst) : CtxLst :=
  { l with
    async_queue := p :: l.async_queue
    async_queue_job_count := l.async_queue_job_count + 1 }

/-- A quiet change that also leaves what the call is. -/
def Silent (f : InvokeCtx → InvokeCtx) : Prop :=
  Quiet f ∧ ∀ x, (f x).kernel_msg = x.kernel_msg ∧ (f x).handle = x.handle

/-- What context_notify_user does is a chain of silent changes of its context, and at most one
job in the async queue of the session. -/
theorem notify_user_silent {P : Chan → Prop} {c : InvokeCtx}
    (hset : ∀ t f, Silent f → P t → P (t.setCtx c.ptr f))
    (hqueue : ∀ t, P t → P (t.setClst c.vfl (queued c.ptr)))
    {sh : AdsprpcShared} {s : Chan} {retval : Int} {rsp_flags early : BitVec 32} (hs : P s) :
    P (context_notify_user sh s c retval rsp_flags early) := by
  have hasync : ∀ t, P t → P (fastrpc_queue_completed_async_job t c) := by
    intro t ht
    unfold fastrpc_queue_completed_async_job
    split
    · exact ht
    · split
      · exact ht
      · apply hqueue
        exact hset t _ ⟨fun _ => ⟨rfl, rfl, rfl, rfl, rfl⟩, fun _ => ⟨rfl, rfl⟩⟩ ht
  have hcomplete : ∀ t, P t → P (t.setCtx c.ptr complete) := by
    intro t ht
    exact hset t _ ⟨fun _ => ⟨rfl, rfl, rfl, rfl, rfl⟩, fun _ => ⟨rfl, rfl⟩⟩ ht
  have h0 : P (s.setCtx c.ptr (fun x => { x with retval, rsp_flags })) :=
    hset s _ ⟨fun _ => ⟨rfl, rfl, rfl, rfl, rfl⟩, fun _ => ⟨rfl, rfl⟩⟩ hs
  unfold context_notify_user
  dsimp only
  split
  · apply hcomplete
    have h1 := hset _ (fun x => { x with is_work_done := true })
      ⟨fun _ => ⟨rfl, rfl, rfl, rfl, rfl⟩, fun _ => ⟨rfl, rfl⟩⟩ h0
    split
    · exact hasync _ h1
    · exact h1
  · split
    · have h1 := hset _ (fun x => { x with early_wake_time := early })
        ⟨fun _ => ⟨rfl, rfl, rfl, rfl, rfl⟩, fun _ => ⟨rfl, rfl⟩⟩ h0
      split
      · exact h1
      · exact hcomplete _ h1
    · split
      · split
        · exact hasync _ h0
        · exact hcomplete _ h0
      · exact h0

theorem notify_user_keeps {P : Chan → Prop} {c : InvokeCtx}
    (hset : ∀ t f, Quiet f → P t → P (t.setCtx c.ptr f))
    (hqueue : ∀ t, P t → P (t.setClst c.vfl (queued c.ptr)))
    {sh : AdsprpcShared} {s : Chan} {retval : Int} {rsp_flags early : BitVec 32} (hs : P s) :
    P (context_notify_user sh s c retval rsp_flags early) :=
  notify_user_silent (fun t f hf => hset t f hf.1) hqueue hs

/-- A quiet change of a context keeps the invariant. -/
theorem Inv.setQuiet {s : Chan} (h : Inv s) (p : Nat) {f : InvokeCtx → InvokeCtx}
    (hf : ∀ x, (f x).ptr = x.ptr ∧ (f x).ctxid = x.ctxid ∧ (f x).phase = x.phase) :
    Inv (s.setCtx p f) := by
  refine h.setCtx p f (fun x => (hf x).1) (fun x => (hf x).2.1) (fun c _ hp => Or.inl ?_)
  rw [(hf c).2.2]
  exact hp

theorem inv_notify_user {sh : AdsprpcShared} {s : Chan} {c : InvokeCtx} {retval : Int}
    {rsp_flags early : BitVec 32} (h : Inv s) :
    Inv (context_notify_user sh s c retval rsp_flags early) := by
  refine notify_user_keeps (P := Inv) ?_ (fun t ht => ht.setClst _ _) h
  intro t f hf ht
  exact ht.setQuiet _ (fun x => ⟨(hf x).1, (hf x).2.2.1, (hf x).2.2.2.2⟩)

/-- The flags of a response as the driver reads them. A response of the short form has none. -/
def rspFlags (sh : AdsprpcShared) (r : RspData) : BitVec 32 :=
  if decide (sh.sizeof_smq_invoke_rspv2 ≤ r.len) then r.flags else 0

/-- What a response can do: the context in the entry that its word names gets it, when the
id in the word is the id of that context, or else no context and no entry changes. -/
theorem response_notifies (sh : AdsprpcShared) (s : Chan) (r : RspData) :
    (∃ c early, s.ctxtable (GET_TABLE_IDX_FROM_CTXID r.ctx) = some c.ptr ∧
      s.ctx c.ptr = some c ∧ c.ctxid = GET_CTXID_FROM_RSP_CTX r.ctx ∧
      fastrpc_handle_rpc_response sh s r =
        (context_notify_user sh s c r.retval (rspFlags sh r) early, .applied c.ptr)) ∨
    (∀ p, (fastrpc_handle_rpc_response sh s r).2 ≠ .applied p) ∧
      ∃ n, (fastrpc_handle_rpc_response sh s r).1 = { s with duplicate_rsp_err_cnt := n } := by
  have hsame : s = { s with duplicate_rsp_err_cnt := s.duplicate_rsp_err_cnt } := rfl
  -- with a name for the result, the cases split one equation and not the whole statement
  generalize ho : fastrpc_handle_rpc_response sh s r = o
  unfold fastrpc_handle_rpc_response at ho
  dsimp only at ho
  rw [show (if decide (sh.sizeof_smq_invoke_rspv2 ≤ r.len) = true then r.flags else 0) =
    rspFlags sh r from rfl] at ho
  generalize (if decide (sh.sizeof_smq_invoke_rspv2 ≤ r.len) = true then r.early_wake_time
    else 0) = early at ho
  split at ho
  · subst ho
    exact Or.inr ⟨nofun, _, hsame⟩
  split at ho
  · subst ho
    exact Or.inr ⟨nofun, _, hsame⟩
  split at ho
  · split at ho
    · subst ho
      exact Or.inr ⟨nofun, _, hsame⟩
    · subst ho
      exact Or.inr ⟨nofun, _, hsame⟩
  split at ho
  · subst ho
    exact Or.inr ⟨nofun, _, hsame⟩
  split at ho
  · subst ho
    exact Or.inr ⟨nofun, _, rfl⟩
  · rename_i c hc
    obtain ⟨p, hp, hc⟩ := Option.bind_eq_some_iff.mp hc
    have hcp : c.ptr = p := key_of_lookup hc
    subst hcp
    split at ho
    · rename_i hid
      split at ho
      · subst ho
        exact Or.inr ⟨nofun, _, hsame⟩
      · subst ho
        exact Or.inl ⟨c, _, hp, hc, hid.1, rfl⟩
    · split at ho
      · subst ho
        exact Or.inr ⟨nofun, _, rfl⟩
      · subst ho
        exact Or.inr ⟨nofun, _, hsame⟩

/-- As `response_notifies`, for the laws that hold whatever the flags are. -/
theorem response_cases (sh : AdsprpcShared) (s : Chan) (r : RspData) :
    (∃ c flags early, s.ctxtable (GET_TABLE_IDX_FROM_CTXID r.ctx) = some c.ptr ∧
      s.ctx c.ptr = some c ∧ c.ctxid = GET_CTXID_FROM_RSP_CTX r.ctx ∧
      fastrpc_handle_rpc_response sh s r =
        (context_notify_user sh s c r.retval flags early, .applied c.ptr)) ∨
    (∀ p, (fastrpc_handle_rpc_response sh s r).2 ≠ .applied p) ∧
      ∃ n, (fastrpc_handle_rpc_response sh s r).1 = { s with duplicate_rsp_err_cnt := n } := by
  rcases response_notifies sh s r with ⟨c, early, h⟩ | h
  · exact Or.inl ⟨c, rspFlags sh r, early, h⟩
  · exact Or.inr h

theorem inv_response {sh : AdsprpcShared} {s : Chan} {r : RspData} (h : Inv s) :
    Inv (fastrpc_handle_rpc_response sh s r).1 := by
  rcases response_cases sh s r with ⟨c, flags, early, _, _, _, he⟩ | ⟨_, n, he⟩
  · rw [he]
    exact inv_notify_user h
  · rw [he]
    exact ⟨h.unique, h.entry, h.one_entry, h.jobid, h.issued, h.ordered⟩

/-! ## Every run -/

theorem onCtx_at {s t : Chan} {p : Nat} {ok : InvokeCtx → Bool} {f : InvokeCtx → Chan}
    (h : onCtx s p ok f = some t) :
    ∃ c, c.ptr = p ∧ s.ctx c.ptr = some c ∧ ok c = true ∧ t = f c := by
  unfold onCtx at h
  split at h
  · rename_i c hc
    split at h
    · cases h
      have hcp : c.ptr = p := key_of_lookup hc
      exact ⟨c, hcp, hcp ▸ hc, ‹_›, rfl⟩
    · cases h
  · cases h

theorem onCtx_some {s t : Chan} {p : Nat} {ok : InvokeCtx → Bool} {f : InvokeCtx → Chan}
    (h : onCtx s p ok f = some t) : ∃ c, s.ctx c.ptr = some c ∧ ok c = true ∧ t = f c := by
  obtain ⟨c, _, hrest⟩ := onCtx_at h
  exact ⟨c, hrest⟩

/-- Every step keeps the invariant of the channel. -/
theorem step_inv (sh : AdsprpcShared) (s : Chan) (a : Act) (t : Chan) (h : Inv s)
    (ht : step sh s a = some t) : Inv t := by
  cases a with
  | alloc_begin p vfl handle k b => exact inv_alloc_begin h ht
  | response r => cases ht; exact inv_response h
  | alloc_fail p =>
    obtain ⟨c, _, _, rfl⟩ := onCtx_some ht
    exact h.setCtx _ _ (fun _ => rfl) (fun _ => rfl) (fun _ _ _ => Or.inl rfl)
  | alloc_entry p =>
    obtain ⟨c, hc, hp, rfl⟩ := onCtx_some ht
    exact inv_alloc_entry h hc (by simpa using hp)
  | alloc_list p =>
    obtain ⟨c, _, _, rfl⟩ := onCtx_some ht
    apply Inv.setClst
    apply h.setCtx
    · intro _; rfl
    · intro _; rfl
    · intro _ _ _; exact Or.inl rfl
  | save_interrupted p =>
    obtain ⟨c, _, _, rfl⟩ := onCtx_some ht
    apply Inv.setClst
    exact h.setQuiet _ (fun _ => ⟨rfl, rfl, rfl⟩)
  | restore_interrupted p =>
    obtain ⟨c, _, _, rfl⟩ := onCtx_some ht
    apply Inv.setClst
    exact h.setQuiet _ (fun _ => ⟨rfl, rfl, rfl⟩)
  | dtor p =>
    obtain ⟨c, _, _, rfl⟩ := onCtx_some ht
    apply Inv.setClst
    apply h.setCtx
    · intro _; rfl
    · intro _; rfl
    · intro _ _ _; exact Or.inl rfl
  | free p =>
    obtain ⟨c, _, _, rfl⟩ := onCtx_some ht
    exact h.setCtx _ _ (fun _ => rfl) (fun _ => rfl) (fun _ _ _ => Or.inl rfl)
  | free_entry p =>
    obtain ⟨c, _, _, rfl⟩ := onCtx_some ht
    exact inv_free_entry h
  | free_list p =>
    obtain ⟨c, hc, hp, rfl⟩ := onCtx_some ht
    have hno : ∀ i, s.ctxtable i ≠ some c.ptr :=
      h.no_entry hc (by rw [show c.phase = .unlinked by simpa using hp]; rfl)
    unfold context_free_list
    split
    · exact h.setCtx _ _ (fun _ => rfl) (fun _ => rfl) (fun _ _ _ => Or.inr hno)
    · apply Inv.setClst
      apply h.setCtx
      · intro _; rfl
      · intro _; rfl
      · intro _ _ _; exact Or.inr hno
  | free_end p =>
    obtain ⟨c, hc, hp, rfl⟩ := onCtx_some ht
    exact inv_free_end h hc (by simpa using hp)

theorem run_keeps_inv {sh : AdsprpcShared} {s t : Chan} {as : List Act} (h : Inv s)
    (hr : run (step sh) s as = some t) : Inv t :=
  run_inv Inv (step_inv sh) h hr

/-- The contexts that no response reaches stay as they are. -/
theorem notify_user_frame {sh : AdsprpcShared} {s : Chan} {c : InvokeCtx} {retval : Int}
    {flags early : BitVec 32} {q : Nat} (hq : q ≠ c.ptr) :
    (context_notify_user sh s c retval flags early).ctx q = s.ctx q := by
  refine notify_user_keeps (P := fun t => t.ctx q = s.ctx q) ?_ (fun t ht => ht) rfl
  intro t f hf ht
  exact (ctx_setCtx_ne (fun x => (hf x).1) hq).trans ht

/-! ## The laws -/

theorem notify_user_issued (sh : AdsprpcShared) (s : Chan) (c : InvokeCtx) (retval : Int)
    (flags early : BitVec 32) :
    (context_notify_user sh s c retval flags early).issued = s.issued :=
  notify_user_keeps (P := fun t => t.issued = s.issued) (fun _ _ _ ht => ht) (fun _ ht => ht) rfl

theorem response_issued (sh : AdsprpcShared) (s : Chan) (r : RspData) :
    (fastrpc_handle_rpc_response sh s r).1.issued = s.issued := by
  rcases response_cases sh s r with ⟨c, flags, early, _, _, _, he⟩ | ⟨_, n, he⟩
  · rw [he]
    exact notify_user_issued sh s c r.retval flags early
  · rw [he]

/-- A step never takes a context out of the history of the channel. -/
theorem step_issued {sh : AdsprpcShared} {s t : Chan} {a : Act} (ht : step sh s a = some t)
    {e : Nat × BitVec 64} (he : e ∈ s.issued) : e ∈ t.issued := by
  cases a with
  | alloc_begin p vfl handle k b =>
    rcases context_alloc_begin_cases ht with rfl | ⟨_, _, rfl⟩
    · exact he
    · exact he
  | response r =>
    cases ht
    rw [response_issued]
    exact he
  | alloc_entry p =>
    obtain ⟨c, _, _, rfl⟩ := onCtx_some ht
    unfold context_alloc_entry
    dsimp only
    split
    · exact List.mem_cons_of_mem _ he
    · exact he
  | free_entry p =>
    obtain ⟨c, _, _, rfl⟩ := onCtx_some ht
    rw [issued_free_entry]
    exact he
  | free_list p =>
    obtain ⟨c, _, _, rfl⟩ := onCtx_some ht
    unfold context_free_list
    split <;> exact he
  | _ =>
    obtain ⟨c, _, _, rfl⟩ := onCtx_some ht
    exact he

theorem issued_mono {sh : AdsprpcShared} {s t : Chan} {as : List Act}
    (hr : run (step sh) s as = some t) : ∀ e ∈ s.issued, e ∈ t.issued := by
  refine run_inv (fun u => ∀ e ∈ s.issued, e ∈ u.issued) ?_ (fun e he => he) hr
  intro u a v hu hv e he
  exact step_issued hv (hu e he)

/-- In every run of a channel, and for every response word, also a late, repeated or
forged one: the response reaches a context only when the word with its two PD bits cleared
is the id of that context, the context is in the entry that the word names, and of all the
contexts that ever got an entry in the run, before or after the response, only this one has
that id. Every other context, and with any other response every context, stays as it is. -/
theorem a_response_reaches_only_its_own_context (sh : AdsprpcShared)
    {pre post : List Act} {s s' t : Chan} {r : RspData}
    (hpre : run (step sh) init pre = some s) (hr : step sh s (.response r) = some s')
    (hpost : run (step sh) s' post = some t) (hjobs : t.attempts ≤ 2 ^ 48) :
    (∀ p, (fastrpc_handle_rpc_response sh s r).2 = .applied p →
      ∃ c, s.ctx p = some c ∧ r.ctx &&& ~~~3#64 = c.ctxid ∧
        s.ctxtable (GET_TABLE_IDX_FROM_CTXID r.ctx) = some p ∧
        (t.issued.map Prod.snd).count c.ctxid = 1 ∧ ∀ q ≠ p, s'.ctx q = s.ctx q) ∧
    ((∀ p, (fastrpc_handle_rpc_response sh s r).2 ≠ .applied p) → ∀ q, s'.ctx q = s.ctx q) := by
  cases hr
  have hs : Inv s := run_keeps_inv inv_init hpre
  have ht : Inv t := run_keeps_inv (inv_response hs) hpost
  rcases response_cases sh s r with ⟨c, flags, early, hentry, hc, hid, he⟩ | ⟨hnot, n, he⟩
  · refine ⟨?_, fun hn => absurd (by rw [he]) (hn c.ptr)⟩
    intro p hp
    rw [he] at hp
    cases hp
    refine ⟨c, hc, hid.symm, hentry, ?_, ?_⟩
    · obtain ⟨_, d, hd, _, m, hm⟩ := hs.entry _ _ hentry
      rw [hc] at hd
      cases hd
      have hmt : (m, c.ctxid) ∈ t.issued := by
        apply issued_mono hpost
        rw [response_issued]
        exact hm
      apply List.count_eq_one_of_mem (ht.ids_nodup hjobs)
      exact List.mem_map_of_mem hmt
    · intro q hq
      rw [he]
      exact notify_user_frame hq
  · refine ⟨fun p hp => absurd hp (hnot p), fun _ q => ?_⟩
    rw [he]
    rfl

/-- The word of the first context of a channel, sent to PD 1, brings the response back to
that context. -/
theorem the_first_response_reaches_the_first_context :
    ∃ s c, run (step sampleShared) init
        [.alloc_begin 7 0 30 false false, .alloc_entry 7, .alloc_list 7] = some s ∧
      s.ctx 7 = some c ∧ c.ctxid = 135552#64 ∧
      (fastrpc_handle_rpc_response sampleShared s
        ⟨24, 135553#64, 0, 0, 0, 2, 0, 0, 0⟩).2 = .applied 7 ∧
      (s.issued.map Prod.snd).count c.ctxid = 1 := by
  have h := @a_response_reaches_only_its_own_context sampleShared
    [.alloc_begin 7 0 30 false false, .alloc_entry 7, .alloc_list 7] [] _ _ _
    ⟨24, 135553#64, 0, 0, 0, 2, 0, 0, 0⟩ rfl rfl rfl (by decide)
  obtain ⟨c, hc, hid, _, hcount, _⟩ := h.1 7 (by decide)
  exact ⟨_, c, rfl, hc, hid.symm, by decide, hcount⟩

end virtual_fastrpc.context_table
