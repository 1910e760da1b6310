-- A thread that a signal takes out of an invoke leaves its context on the
-- interrupted list of its session. The next invoke of that thread takes the
-- context up again, and the two drivers choose it by the thread and the scalars.
import PlatformKernel.Lib.Runs
import PlatformKernel.AdsprpcShared
import Mathlib.Tactic.Common

namespace virtual_fastrpc.interrupted_calls

open step_runs

def FASTRPC_STATIC_HANDLE_KERNEL : BitVec 32 := 1
def FASTRPC_STATIC_HANDLE_PROCESS_GROUP : BitVec 32 := 1
def FASTRPC_STATIC_HANDLE_DSP_UTILITIES : BitVec 32 := 2

/-! ## Requests and contexts -/

structure RemoteArg where
  pv : BitVec 64
  len : BitVec 64
  deriving DecidableEq, Repr

/-- `struct fastrpc_ioctl_invoke`, with the argument list that `pra` points to. -/
structure Request where
  handle : BitVec 32
  sc : BitVec 32
  pra : List RemoteArg
  deriving DecidableEq, Repr

/-- What the drivers take from adsprpc_shared.h for an invoke. -/
structure InvokeShared where
  REMOTE_SCALARS_INBUFS : BitVec 32 → Nat
  REMOTE_SCALARS_OUTBUFS : BitVec 32 → Nat

/-- The out-buffers that an argument list names. -/
def outBufs (sh : InvokeShared) (r : Request) : List RemoteArg :=
  (r.pra.drop (sh.REMOTE_SCALARS_INBUFS r.sc)).take (sh.REMOTE_SCALARS_OUTBUFS r.sc)

/-- A context: its session and its thread, the request that context_alloc has copied, and
the result in the answer, once there is one. -/
structure InvokeCtx where
  vfl : Nat
  pid : Nat
  req : Request
  answer : Option Int
  deriving DecidableEq, Repr

/-! ## The state -/

/-- Where a thread is. -/
inductive Thread
  | idle
  /-- In context_alloc, in get_args, or in the send. -/
  | building (v : Nat) (asked : Request) (kernel job : Bool)
  /-- In the wait for the answer to a context. -/
  | waiting (v : Nat) (asked : Request) (kernel : Bool) (ctx : InvokeCtx)
  deriving DecidableEq, Repr

/-- The end of a synchronous invoke: its request, the request of the context that it reports,
whether it returned 0, and the buffers that got results. -/
structure Return where
  asked : Request
  created : Option Request
  ok : Bool
  wrote : List RemoteArg
  deriving DecidableEq, Repr

/-- The interrupted lists of the sessions, the threads, and, for the laws only, how the
invokes ended. -/
structure Calls where
  interrupted : Nat → List InvokeCtx
  thread : Nat → Thread
  returns : List Return

def init : Calls := ⟨fun _ => [], fun _ => .idle, []⟩

def Calls.setThread (s : Calls) (pid : Nat) (th : Thread) : Calls :=
  { s with thread := fun q => if q = pid then th else s.thread q }

def Calls.setInterrupted (s : Calls) (v : Nat) (l : List InvokeCtx) : Calls :=
  { s with interrupted := fun w => if w = v then l else s.interrupted w }

/-- The thread leaves the driver. -/
def Calls.ret (s : Calls) (pid : Nat) (e : Return) : Calls :=
  { s.setThread pid .idle with returns := e :: s.returns }

def failed (asked : Request) : Return := ⟨asked, none, false, []⟩

/-! ## The operations -/

inductive Restored
  | none
  | mismatch
  | found (ctx : InvokeCtx) (rest : List InvokeCtx)
  deriving DecidableEq, Repr

/-- context_restore_interrupted: the first context of the thread, when its scalars and its
session fit the invoke. -/
def context_restore_interrupted (l : List InvokeCtx) (v pid : Nat) (sc : BitVec 32) : Restored :=
  match l.find? (·.pid == pid) with
  | .none => .none
  | some ictx =>
    if sc ≠ ictx.req.sc ∨ ictx.vfl ≠ v then .mismatch
    else .found ictx (l.eraseP (·.pid == pid))

/-- The handles that a call of a user may not name. -/
def badHandle (kernel : Bool) (handle : BitVec 32) : Driver → Bool
  | .virtio => handle == FASTRPC_STATIC_HANDLE_KERNEL
  | .hybrid => !kernel && (handle == FASTRPC_STATIC_HANDLE_PROCESS_GROUP ||
      handle == FASTRPC_STATIC_HANDLE_DSP_UTILITIES)

/-- Only the hybrid driver has calls of the kernel, which never take up a context. -/
def restores (kernel : Bool) : Driver → Bool
  | .virtio => true
  | .hybrid => !kernel

/-- An invoke up to context_alloc. -/
def invoke_begin (d : Driver) (s : Calls) (v pid : Nat) (req : Request) (kernel job : Bool) :
    Calls :=
  if badHandle kernel req.handle d then s.ret pid (failed req)
  else if restores kernel d then
    match context_restore_interrupted (s.interrupted v) v pid req.sc with
    | .mismatch => s.ret pid (failed req)
    | .found ctx rest => (s.setInterrupted v rest).setThread pid (.waiting v req kernel ctx)
    | .none => s.setThread pid (.building v req kernel job)
  else s.setThread pid (.building v req kernel job)

def context_save_interrupted (s : Calls) (v : Nat) (ctx : InvokeCtx) : Calls :=
  s.setInterrupted v (ctx :: s.interrupted v)

/-- The end of an invoke whose wait is over, with the result of the answer. put_args copies
the out-buffers to the addresses in the context; `put` is how many, when one of the copies
fails. The virtio driver has the result in the message and looks at it first, the hybrid
driver looks at it last, and then at ssrcount. -/
def invoke_end (sh : InvokeShared) (asked : Request) (ctx : InvokeCtx) (answer : Int)
    (put : Option Nat) (reset : Bool) : Driver → Return
  | .virtio =>
    if answer ≠ 0 then ⟨asked, some ctx.req, false, []⟩
    else match put with
      | some k => ⟨asked, some ctx.req, false, (outBufs sh ctx.req).take k⟩
      | none => ⟨asked, some ctx.req, true, outBufs sh ctx.req⟩
  | .hybrid =>
    match put with
    | some k => ⟨asked, some ctx.req, false, (outBufs sh ctx.req).take k⟩
    | none => ⟨asked, some ctx.req, decide (answer = 0) && !reset, outBufs sh ctx.req⟩

/-! ## The machine -/

inductive Act
  | invoke (v pid : Nat) (req : Request) (kernel job : Bool)
  /-- context_alloc, get_args or the send fails. -/
  | build_fail (pid : Nat)
  | sent (pid : Nat)
  /-- The answer to the context that a thread waits for. -/
  | answer (pid : Nat) (result : Int)
  /-- The answer to a context on the interrupted list. -/
  | answer_parked (v i : Nat) (result : Int)
  /-- A signal takes a thread of a user out of its wait. -/
  | interrupt (pid : Nat)
  /-- The wait ends with an error of its own, as it can in the hybrid driver. -/
  | wait_fail (pid : Nat)
  | finish (pid : Nat) (put : Option Nat) (reset : Bool)
  /-- The session closes, and its contexts go. -/
  | close (v : Nat)
  deriving DecidableEq, Repr

def answered (result : Int) (ctx : InvokeCtx) : InvokeCtx := { ctx with answer := some result }

def step (sh : InvokeShared) (d : Driver) (s : Calls) : Act → Option Calls
  | .invoke v pid req kernel job =>
    match s.thread pid with
    | .idle => some (invoke_begin d s v pid req kernel job)
    | _ => none
  | .build_fail pid =>
    match s.thread pid with
    | .building _ asked _ _ => some (s.ret pid (failed asked))
    | _ => none
  | .sent pid =>
    match s.thread pid with
    | .building v asked kernel job =>
      -- an asynchronous invoke ends here, without a result
      if job then some (s.setThread pid .idle)
      else some (s.setThread pid (.waiting v asked kernel ⟨v, pid, asked, none⟩))
    | _ => none
  | .answer pid result =>
    match s.thread pid with
    | .waiting v asked kernel ctx =>
      some (s.setThread pid (.waiting v asked kernel (answered result ctx)))
    | _ => none
  | .answer_parked v i result =>
    some (s.setInterrupted v ((s.interrupted v).modify i (answered result)))
  | .interrupt pid =>
    match s.thread pid with
    | .waiting v asked false ⟨w, p, req, none⟩ =>
      some ((context_save_interrupted s v ⟨w, p, req, none⟩).ret pid
        ⟨asked, some req, false, []⟩)
    | _ => none
  | .wait_fail pid =>
    match s.thread pid with
    | .waiting _ asked _ ctx => some (s.ret pid ⟨asked, some ctx.req, false, []⟩)
    | _ => none
  | .finish pid put reset =>
    match s.thread pid with
    | .waiting _ asked _ ⟨w, p, req, some answer⟩ =>
      some (s.ret pid (invoke_end sh asked ⟨w, p, req, some answer⟩ answer put reset d))
    | _ => none
  | .close v => some (s.setInterrupted v [])

/-! ## The law -/

/-- An invoke that returned 0 reports a context of its own request, and the results are in
the buffers of its own argument list. -/
def Paired (sh : InvokeShared) (e : Return) : Prop :=
  e.ok = true → e.created = some e.asked ∧ e.wrote = outBufs sh e.asked

/-- When the thread of an invoke has an interrupted context with the same scalars, that
context is of the same request. -/
def ResumesItsOwn (d : Driver) (s : Calls) : Act → Prop
  | .invoke v pid req kernel _ => restores kernel d = true →
    ∀ ictx, (s.interrupted v).find? (·.pid == pid) = some ictx →
      ictx.req.sc = req.sc → ictx.req = req
  | _ => True

/-- The context that a thread waits for is of the request that it asks for. -/
def WaitsForItsOwn : Thread → Prop
  | .waiting _ asked _ ctx => ctx.req = asked
  | _ => True

structure Inv (sh : InvokeShared) (s : Calls) : Prop where
  threads : ∀ pid, WaitsForItsOwn (s.thread pid)
  returns : ∀ e ∈ s.returns, Paired sh e

theorem inv_init (sh : InvokeShared) : Inv sh init where
  threads := fun _ => trivial
  returns := by intro e he; cases he

theorem paired_of_failed {sh : InvokeShared} {e : Return} (h : e.ok = false) : Paired sh e := by
  intro hok
  rw [h] at hok
  cases hok

theorem Inv.setThread {sh : InvokeShared} {s : Calls} (h : Inv sh s) (pid : Nat) {th : Thread}
    (hth : WaitsForItsOwn th) : Inv sh (s.setThread pid th) := by
  refine ⟨fun q => ?_, h.returns⟩
  unfold Calls.setThread
  dsimp only
  split
  · exact hth
  · exact h.threads q

theorem Inv.setInterrupted {sh : InvokeShared} {s : Calls} (h : Inv sh s) (v : Nat)
    (l : List InvokeCtx) : Inv sh (s.setInterrupted v l) :=
  ⟨h.threads, h.returns⟩

theorem Inv.ret {sh : InvokeShared} {s : Calls} (h : Inv sh s) (pid : Nat) {e : Return}
    (he : Paired sh e) : Inv sh (s.ret pid e) := by
  have hidle : Inv sh (s.setThread pid .idle) := h.setThread pid trivial
  refine ⟨hidle.threads, ?_⟩
  intro x hx
  rcases List.mem_cons.mp hx with rfl | hx
  · exact he
  · exact h.returns x hx

/-- The context that context_restore_interrupted takes is the first one of the thread, and
has the scalars of the invoke. -/
theorem restore_found {l rest : List InvokeCtx} {v pid : Nat} {sc : BitVec 32} {ctx : InvokeCtx}
    (h : context_restore_interrupted l v pid sc = .found ctx rest) :
    l.find? (·.pid == pid) = some ctx ∧ ctx.req.sc = sc := by
  unfold context_restore_interrupted at h
  split at h
  · cases h
  · rename_i ictx hfind
    split at h
    · cases h
    · rename_i hfit
      cases h
      refine ⟨hfind, ?_⟩
      by_contra he
      exact hfit (Or.inl (fun hs => he hs.symm))

theorem inv_invoke {sh : InvokeShared} {d : Driver} {s : Calls} {v pid : Nat} {req : Request}
    {kernel job : Bool} (h : Inv sh s) (hown : ResumesItsOwn d s (.invoke v pid req kernel job)) :
    Inv sh (invoke_begin d s v pid req kernel job) := by
  unfold invoke_begin
  split
  · exact h.ret pid (paired_of_failed rfl)
  · split
    · rename_i hrestores
      split
      · exact h.ret pid (paired_of_failed rfl)
      · rename_i ctx rest hfound
        obtain ⟨hfirst, hsc⟩ := restore_found hfound
        exact (h.setInterrupted v rest).setThread pid (hown hrestores ctx hfirst hsc)
      · exact h.setThread pid trivial
    · exact h.setThread pid trivial

/-- An invoke whose context is of its own request ends with its own results. -/
theorem paired_invoke_end (sh : InvokeShared) (ctx : InvokeCtx) (answer : Int)
    (put : Option Nat) (reset : Bool) (d : Driver) :
    Paired sh (invoke_end sh ctx.req ctx answer put reset d) := by
  unfold invoke_end
  cases d with
  | virtio =>
    dsimp only
    split
    · exact paired_of_failed rfl
    · split
      · exact paired_of_failed rfl
      · exact fun _ => ⟨rfl, rfl⟩
  | hybrid =>
    dsimp only
    split
    · exact paired_of_failed rfl
    · exact fun _ => ⟨rfl, rfl⟩

theorem step_inv (sh : InvokeShared) (d : Driver) (s : Calls) (a : Act) (t : Calls)
    (h : Inv sh s) (hown : ResumesItsOwn d s a) (ht : step sh d s a = some t) : Inv sh t := by
  cases a with
  | invoke v pid req kernel job =>
    simp only [step] at ht
    split at ht
    · cases ht
      exact inv_invoke h hown
    · cases ht
  | build_fail pid =>
    simp only [step] at ht
    split at ht
    · cases ht
      exact h.ret pid (paired_of_failed rfl)
    · cases ht
  | sent pid =>
    simp only [step] at ht
    split at ht
    · split at ht
      · cases ht
        exact h.setThread pid trivial
      · cases ht
        exact h.setThread pid rfl
    · cases ht
  | answer pid result =>
    simp only [step] at ht
    have hth := h.threads pid
    split at ht
    · rename_i v asked kernel ctx hpid
      cases ht
      rw [hpid] at hth
      exact h.setThread pid hth
    · cases ht
  | answer_parked v i result =>
    cases ht
    exact h.setInterrupted v _
  | interrupt pid =>
    simp only [step] at ht
    split at ht
    · cases ht
      exact (h.setInterrupted _ _).ret pid (paired_of_failed rfl)
    · cases ht
  | wait_fail pid =>
    simp only [step] at ht
    split at ht
    · cases ht
      exact h.ret pid (paired_of_failed rfl)
    · cases ht
  | finish pid put reset =>
    simp only [step] at ht
    have hth := h.threads pid
    split at ht
    · rename_i v asked kernel w p req answer hpid
      cases ht
      rw [hpid] at hth
      cases hth
      exact h.ret pid (paired_invoke_end sh ⟨w, p, req, some answer⟩ answer put reset d)
    · cases ht
  | close v =>
    cases ht
    exact h.setInterrupted v _

/-- In both drivers, and in every run in which no thread comes back from a signal with another
request that has the scalars of its interrupted one: every synchronous invoke that returns 0
reports a context that was made from its own request, and its results are in the buffers of
its own argument list. -/
theorem an_invoke_reports_its_own_call (sh : InvokeShared) (d : Driver) {s : Calls}
    (hr : ReachableUnder (step sh d) (ResumesItsOwn d) init s) : ∀ e ∈ s.returns, Paired sh e := by
  have hinv : Inv sh s := hr.inv (Inv sh) (step_inv sh d) (inv_init sh)
  exact hinv.returns

/-- The macros of the header, for the runs on fixed inputs. -/
def sampleInvoke : InvokeShared where
  REMOTE_SCALARS_INBUFS := fun sc => ((sc >>> 16) &&& 0xff).toNat
  REMOTE_SCALARS_OUTBUFS := fun sc => ((sc >>> 8) &&& 0xff).toNat

/-- A call with one out-buffer. -/
def sampleRequest (handle : BitVec 32) (pv : BitVec 64) : Request := ⟨handle, 0x100, [⟨pv, 64⟩]⟩

/-- A thread that is interrupted and makes the same call again gets its results. -/
theorem a_restarted_call_gets_its_results :
    ∃ s, run (step sampleInvoke .hybrid) init
        [.invoke 0 9 (sampleRequest 30 0x1000) false false, .sent 9, .interrupt 9,
          .answer_parked 0 0 0, .invoke 0 9 (sampleRequest 30 0x1000) false false,
          .finish 9 none false] = some s ∧
      (∃ e ∈ s.returns, e.ok = true) ∧ ∀ e ∈ s.returns, Paired sampleInvoke e := by
  refine ⟨_, rfl, ⟨_, List.mem_cons_self, rfl⟩, ?_⟩
  refine an_invoke_reports_its_own_call sampleInvoke .hybrid
    ⟨[.invoke 0 9 (sampleRequest 30 0x1000) false false, .sent 9, .interrupt 9,
      .answer_parked 0 0 0, .invoke 0 9 (sampleRequest 30 0x1000) false false,
      .finish 9 none false], ?_, rfl⟩
  refine .cons (fun _ _ hfind => by cases hfind) rfl (.cons trivial rfl (.cons trivial rfl
    (.cons trivial rfl (.cons ?_ rfl (.cons trivial rfl trivial)))))
  intro _ ictx hfind _
  cases hfind
  rfl

/-- In both drivers a thread that is interrupted, and then calls another handle with another
buffer and the same scalars, gets 0 for the call that it had given up, with the results in
the buffer of that one. -/
theorem an_invoke_reports_another_call :
    let run d := run (step sampleInvoke d) init
      [.invoke 0 9 (sampleRequest 30 0x1000) false false, .sent 9, .interrupt 9,
        .invoke 0 9 (sampleRequest 31 0x2000) false false, .answer 9 0, .finish 9 none false]
    (∃ s, run .virtio = some s ∧ ∃ e ∈ s.returns, ¬Paired sampleInvoke e) ∧
      ∃ s, run .hybrid = some s ∧ ∃ e ∈ s.returns, ¬Paired sampleInvoke e := by
  refine ⟨⟨_, rfl, _, List.mem_cons_self, ?_⟩, ⟨_, rfl, _, List.mem_cons_self, ?_⟩⟩
  · intro h
    exact absurd (h rfl).1 (by decide)
  · intro h
    exact absurd (h rfl).1 (by decide)

end virtual_fastrpc.interrupted_calls
