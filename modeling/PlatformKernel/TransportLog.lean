-- The log of the messages between the hybrid driver and the DSP. A thread in
-- hfastrpc_invoke_send writes down what it has given to the transport, and the
-- responses are written down as they come: two rings for each channel.
import PlatformKernel.HybridMarshal
import PlatformKernel.Lib.RingBuffer
import PlatformKernel.Lib.Runs
import PlatformKernel.Lib.Histories

namespace virtual_fastrpc.transport_log

open step_runs ring_buffer histories

/-! ## Messages -/

def ECHRNG : Int := 44
def ECONNRESET : Int := 104
def SESSION_ID_INDEX : Nat := 30
def SESSION_ID_MASK : BitVec 32 := 1 <<< SESSION_ID_INDEX

structure smq_msg where
  pid : BitVec 32
  tid : BitVec 32
  ctx : BitVec 64
  handle : BitVec 32
  sc : BitVec 32
  addr : BitVec 64
  size : Nat
  deriving DecidableEq, Repr

structure fastrpc_tx_msg where
  msg : smq_msg
  transport_send_err : Int
  ns : Int
  xo_time_in_us : BitVec 64
  deriving DecidableEq, Repr

structure fastrpc_rx_msg where
  ctx : BitVec 64
  retval : Int
  flags : BitVec 32
  early_wake_time : BitVec 32
  version : BitVec 32
  ns : Int
  xo_time_in_us : BitVec 64
  deriving DecidableEq, Repr

/-- The values of adsprpc_shared.h. -/
structure LogShared where
  KERNEL_MSG_WITH_ZERO_PID : BitVec 32
  GLINK_MSG_HISTORY_LEN : Nat
  history_pos : 0 < GLINK_MSG_HISTORY_LEN

/-- The session of a call, as far as its messages go. -/
structure File where
  upid : BitVec 32
  sessionid : Int
  pd : BitVec 64
  domain : Int
  ssrcount : BitVec 64

/-- The context of a call, and the arguments of hfastrpc_invoke_send. `ptr` names the context. -/
structure Call where
  ptr : Nat
  fl : File
  ctxid : BitVec 64
  sc : BitVec 32
  da : Option (BitVec 64)
  used : Nat
  isasyncjob : Bool
  tid : BitVec 32
  kernel : BitVec 32
  handle : BitVec 32

section

variable (h : LogShared)

/-- The message that is put into the context. -/
def Call.smsg (c : Call) : smq_msg where
  pid := if c.kernel = h.KERNEL_MSG_WITH_ZERO_PID then 0 else c.fl.upid
  tid := if c.fl.sessionid ≠ 0 then c.tid ||| SESSION_ID_MASK else c.tid
  ctx := c.ctxid ||| c.fl.pd
  handle := c.handle
  sc := c.sc
  addr := c.da.getD 0
  size := hybrid_marshal.buf_page_size c.used

/-! ## The threads and the log -/

structure Channel where
  ssrcount : BitVec 64
  tx : RingBuffer fastrpc_tx_msg
  rx : RingBuffer fastrpc_rx_msg

/-- Where a thread is in hfastrpc_invoke_send: outside, behind the check of ssrcount, or behind the
transport, with what it will write down. `copy` is `msg_temp`, which an asynchronous call has. -/
inductive Thread
  | out
  | checked (domain ptr : Nat) (isasync : Bool)
  | sent (domain ptr : Nat) (copy : Option smq_msg) (err ns : Int) (xo : BitVec 64)
  deriving DecidableEq, Repr

/-- The channels and the threads. `smsg` is the memory of the messages in the contexts, and `owner`
the thread that works on one; when there is none, its context may be freed and its memory used for
something else. The last three fields are for the laws only: what each thread has given to the
transport, what each has written down, and what has come back. -/
structure System where
  channel : Nat → Channel
  thread : Nat → Thread
  smsg : Nat → smq_msg
  owner : Nat → Option Nat
  sent : Nat → List (Nat × fastrpc_tx_msg)
  logged : Nat → List (Nat × fastrpc_tx_msg)
  received : Nat → List fastrpc_rx_msg

def init (smsg : Nat → smq_msg) : System where
  channel := fun _ => ⟨0, .empty, .empty⟩
  thread := fun _ => .out
  smsg := smsg
  owner := fun _ => none
  sent := fun _ => []
  logged := fun _ => []
  received := fun _ => []

inductive Act
  /-- hfastrpc_invoke_send up to the unlock of smd_mutex. -/
  | invoke_send (r : Nat) (c : Call)
  /-- fastrpc_transport_send, with what it returns and the times before and behind it. -/
  | transport_send (r : Nat) (err ns : Int) (xo : BitVec 64)
  | hfastrpc_update_txmsg_buf (r : Nat)
  /-- fastrpc_update_rxmsg_buf for a response, and hfastrpc_update_rxmsg_buf for the poll memory. -/
  | update_rxmsg_buf (domain : Nat) (m : fastrpc_rx_msg)
  /-- The memory of a context that is freed holds something else. -/
  | reuse (ptr : Nat) (m : smq_msg)
  /-- The restart notifier counts a shutdown. -/
  | before_shutdown (domain : Nat)

/-- The check before the transport. -/
def invoke_send_check (num_channels : Nat) (s : System) (f : File) : Int :=
  if f.domain < 0 ∨ (num_channels : Int) ≤ f.domain then -ECHRNG
  else if f.ssrcount ≠ (s.channel f.domain.toNat).ssrcount then -ECONNRESET
  else 0

/-- A thread goes on. -/
def System.move (s : System) (r : Nat) (t : Thread) : System :=
  { s with thread := Function.update s.thread r t }

def System.setChannel (s : System) (d : Nat) (c : Channel) : System :=
  { s with channel := Function.update s.channel d c }

/-- The message that a thread writes down: its copy, or the one in the context. -/
def System.msg (s : System) (ptr : Nat) (copy : Option smq_msg) : smq_msg := copy.getD (s.smsg ptr)

def step (num_channels : Nat) (s : System) : Act → Option System
  | .invoke_send r c =>
    if s.thread r = .out ∧ s.owner c.ptr = none then
      let err := invoke_send_check num_channels s c.fl
      if err = -ECHRNG then some s
      else
        let s : System := { s with smsg := Function.update s.smsg c.ptr (c.smsg h) }
        if err = 0 then
          some { s.move r (.checked c.fl.domain.toNat c.ptr c.isasyncjob) with
            owner := Function.update s.owner c.ptr (some r) }
        else some s
    else none
  | .transport_send r err ns xo =>
    match s.thread r with
    | .checked d ptr isasync =>
      let copy := if isasync then some (s.smsg ptr) else none
      some { s.move r (.sent d ptr copy err ns xo) with
        owner := if isasync then Function.update s.owner ptr none else s.owner
        sent := Function.update s.sent d (s.sent d ++ [(r, ⟨s.smsg ptr, err, ns, xo⟩)]) }
    | _ => none
  | .hfastrpc_update_txmsg_buf r =>
    match s.thread r with
    | .sent d ptr copy err ns xo =>
      let tx_msg : fastrpc_tx_msg := ⟨s.msg ptr copy, err, ns, xo⟩
      let c := s.channel d
      let c := { c with tx := c.tx.put h.GLINK_MSG_HISTORY_LEN tx_msg }
      some { (s.move r .out).setChannel d c with
        owner := if copy = none then Function.update s.owner ptr none else s.owner
        logged := Function.update s.logged d (s.logged d ++ [(r, tx_msg)]) }
    | _ => none
  | .update_rxmsg_buf d m =>
    let c := s.channel d
    some { s.setChannel d { c with rx := c.rx.put h.GLINK_MSG_HISTORY_LEN m } with
      received := Function.update s.received d (s.received d ++ [m]) }
  | .reuse ptr m =>
    if s.owner ptr = none then some { s with smsg := Function.update s.smsg ptr m } else none
  | .before_shutdown d =>
    let c := s.channel d
    some (s.setChannel d { c with ssrcount := c.ssrcount + 1 })

end

/-! ## What a thread has still to write down -/

/-- The message that a thread has sent on a channel and not written down. -/
def System.pending (s : System) (d r : Nat) : List fastrpc_tx_msg :=
  match s.thread r with
  | .sent e ptr copy err ns xo => if e = d then [⟨s.msg ptr copy, err, ns, xo⟩] else []
  | _ => []

/-- The context whose message a thread will read. -/
def Thread.reads : Thread → Option Nat
  | .checked _ ptr _ => some ptr
  | .sent _ ptr none _ _ _ => some ptr
  | _ => none

/-- The rings hold the end of their histories, a thread has written down all that it has sent but
for what it is about to write, and the message that it will read is its own. -/
structure Sound (h : LogShared) (s : System) : Prop where
  tx : ∀ d, Keeps h.GLINK_MSG_HISTORY_LEN (s.channel d).tx ((s.logged d).map Prod.snd)
  rx : ∀ d, Keeps h.GLINK_MSG_HISTORY_LEN (s.channel d).rx (s.received d)
  mine : ∀ d r, of_thread r (s.sent d) = of_thread r (s.logged d) ++ s.pending d r
  owned : ∀ r ptr, (s.thread r).reads = some ptr → s.owner ptr = some r

section

variable {h : LogShared} {num_channels : Nat} {s t : System}

theorem sound_init (smsg : Nat → smq_msg) : Sound h (init smsg) := by
  constructor
  · exact fun _ => keeps_empty _
  · exact fun _ => keeps_empty _
  · intro d r
    simp [init, System.pending]
  · simp [init, Thread.reads]

/-- The memory of a context that nobody owns is written. -/
theorem pending_smsg (hs : Sound h s) {ptr : Nat} (hp : s.owner ptr = none) (m : smq_msg)
    (d r : Nat) :
    System.pending { s with smsg := Function.update s.smsg ptr m } d r = s.pending d r := by
  have howned := hs.owned r
  unfold System.pending System.msg
  cases ht : s.thread r with
  | out => rfl
  | checked e q isasync => rfl
  | sent e q copy err ns xo =>
    cases copy with
    | some m' => rfl
    | none =>
      rw [ht] at howned
      have hq : q ≠ ptr := by
        rintro rfl
        have := howned q rfl
        rw [hp] at this
        cases this
      simp [Function.update_of_ne hq]

theorem Sound.write (hs : Sound h s) {ptr : Nat} (hp : s.owner ptr = none) (m : smq_msg) :
    Sound h { s with smsg := Function.update s.smsg ptr m } := by
  refine ⟨hs.tx, hs.rx, ?_, hs.owned⟩
  intro d r
  rw [pending_smsg hs hp]
  exact hs.mine d r

/-- What a thread has to write down depends on where it is and on the messages only. -/
theorem pending_congr {d r : Nat} (hth : t.thread r = s.thread r) (hm : t.smsg = s.smsg) :
    t.pending d r = s.pending d r := by
  unfold System.pending System.msg
  rw [hth, hm]

@[simp] theorem pending_out {d r : Nat} (h : s.thread r = .out) : s.pending d r = [] := by
  simp [System.pending, h]

@[simp] theorem pending_checked {d r e p : Nat} {isasync : Bool}
    (h : s.thread r = .checked e p isasync) : s.pending d r = [] := by
  simp [System.pending, h]

theorem pending_sent {d r e p : Nat} {copy : Option smq_msg} {err ns : Int} {xo : BitVec 64}
    (h : s.thread r = .sent e p copy err ns xo) :
    s.pending d r = if e = d then [⟨s.msg p copy, err, ns, xo⟩] else [] := by
  simp [System.pending, h]

/-! ## What a step keeps -/

/-- A thread that was outside takes a context that nobody owns. -/
theorem Sound.take (hs : Sound h s) {r d ptr : Nat} {isasync : Bool} (hr : s.thread r = .out)
    (hp : s.owner ptr = none) :
    Sound h { s.move r (.checked d ptr isasync) with
      owner := Function.update s.owner ptr (some r) } := by
  refine ⟨hs.tx, hs.rx, ?_, ?_⟩
  · intro e q
    have hmine := hs.mine e q
    by_cases hq : q = r
    · subst hq
      rw [pending_out hr] at hmine
      simpa [System.pending, System.move] using hmine
    · have hthread : (s.move r (.checked d ptr isasync)).thread q = s.thread q := by
        simp [System.move, hq]
      rw [← pending_congr (s := s) hthread rfl] at hmine
      exact hmine
  · intro q p hread
    by_cases hq : q = r
    · subst hq
      simp only [System.move, Function.update_self, Thread.reads, Option.some.injEq] at hread
      subst hread
      simp
    · simp only [System.move, Function.update_of_ne hq] at hread
      have hown := hs.owned q p hread
      have hne : p ≠ ptr := by
        rintro rfl
        rw [hp] at hown
        cases hown
      simp [Function.update_of_ne hne, hown]

/-- A context leaves its owner when this thread reads it no more. -/
theorem owned_after (hs : Sound h s) {r ptr : Nat} {b : Prop} [Decidable b]
    (hr : b → s.owner ptr = some r) {q p : Nat} (hq : q ≠ r)
    (hread : (s.thread q).reads = some p) :
    (if b then Function.update s.owner ptr none else s.owner) p = some q := by
  have hown := hs.owned q p hread
  split
  · rename_i hb
    have hne : p ≠ ptr := by
      rintro rfl
      rw [hr hb] at hown
      exact hq (Option.some.inj hown).symm
    rw [Function.update_of_ne hne]
    exact hown
  · exact hown

theorem Sound.transport_send (hs : Sound h s) {r d ptr : Nat} {isasync : Bool}
    (hr : s.thread r = .checked d ptr isasync) (err ns : Int) (xo : BitVec 64) :
    Sound h { s.move r (.sent d ptr (if isasync then some (s.smsg ptr) else none) err ns xo) with
      owner := if isasync then Function.update s.owner ptr none else s.owner
      sent := Function.update s.sent d (s.sent d ++ [(r, ⟨s.smsg ptr, err, ns, xo⟩)]) } := by
  have hown : s.owner ptr = some r := hs.owned r ptr (by rw [hr, Thread.reads])
  refine ⟨hs.tx, hs.rx, ?_, ?_⟩
  · intro e q
    have hmine := hs.mine e q
    by_cases hq : q = r
    · subst hq
      rw [pending_checked hr, List.append_nil] at hmine
      simp only [System.pending, System.move, System.msg, Function.update_self]
      by_cases he : e = d
      · subst he
        cases isasync <;> simp [hmine]
      · simp [Function.update_of_ne he, Ne.symm he, hmine]
    · have hthread : (s.move r (.sent d ptr (if isasync then some (s.smsg ptr) else none)
          err ns xo)).thread q = s.thread q := by
        simp [System.move, hq]
      rw [← pending_congr (s := s) hthread rfl] at hmine
      by_cases he : e = d
      · subst he
        simp only [System.move, Function.update_self]
        rw [of_thread_snoc_ne (Ne.symm hq)]
        exact hmine
      · simp only [System.move, Function.update_of_ne he]
        exact hmine
  · intro q p hread
    by_cases hq : q = r
    · subst hq
      cases isasync with
      | true => simp [System.move, Thread.reads] at hread
      | false =>
        simp [System.move, Thread.reads] at hread
        subst hread
        simpa [System.move] using hown
    · simp only [System.move, Function.update_of_ne hq] at hread
      exact owned_after hs (fun _ => hown) hq hread

theorem Sound.update_txmsg (hs : Sound h s) {r d ptr : Nat} {copy : Option smq_msg}
    {err ns : Int} {xo : BitVec 64} (hr : s.thread r = .sent d ptr copy err ns xo) :
    Sound h { (s.move r .out).setChannel d { s.channel d with
        tx := (s.channel d).tx.put h.GLINK_MSG_HISTORY_LEN ⟨s.msg ptr copy, err, ns, xo⟩ } with
      owner := if copy = none then Function.update s.owner ptr none else s.owner
      logged := Function.update s.logged d
        (s.logged d ++ [(r, ⟨s.msg ptr copy, err, ns, xo⟩)]) } := by
  refine ⟨?_, ?_, ?_, ?_⟩
  · intro e
    by_cases he : e = d
    · subst he
      simp only [System.setChannel, Function.update_self, List.map_append, List.map_singleton]
      exact (hs.tx e).put h.history_pos _
    · simp only [System.setChannel, System.move, Function.update_of_ne he]
      exact hs.tx e
  · intro e
    by_cases he : e = d
    · subst he
      simp only [System.setChannel, Function.update_self]
      exact hs.rx e
    · simp only [System.setChannel, System.move, Function.update_of_ne he]
      exact hs.rx e
  · intro e q
    have hmine := hs.mine e q
    by_cases hq : q = r
    · subst hq
      rw [pending_sent hr] at hmine
      simp only [System.pending, System.setChannel, System.move, Function.update_self]
      by_cases he : e = d
      · subst he
        simpa using hmine
      · simpa [Function.update_of_ne he, Ne.symm he] using hmine
    · have hthread : (s.move r .out).thread q = s.thread q := by
        simp [System.move, hq]
      rw [← pending_congr (s := s) hthread rfl] at hmine
      by_cases he : e = d
      · subst he
        simp only [System.setChannel, System.move, Function.update_self]
        rw [of_thread_snoc_ne (Ne.symm hq)]
        exact hmine
      · simp only [System.setChannel, System.move, Function.update_of_ne he]
        exact hmine
  · intro q p hread
    by_cases hq : q = r
    · subst hq
      simp [System.setChannel, System.move, Thread.reads] at hread
    · simp only [System.setChannel, System.move, Function.update_of_ne hq] at hread
      refine owned_after hs (fun hcopy => ?_) hq hread
      exact hs.owned r ptr (by rw [hr, hcopy, Thread.reads])

theorem Sound.update_rxmsg (hs : Sound h s) (d : Nat) (m : fastrpc_rx_msg) :
    Sound h { s.setChannel d { s.channel d with
        rx := (s.channel d).rx.put h.GLINK_MSG_HISTORY_LEN m } with
      received := Function.update s.received d (s.received d ++ [m]) } := by
  refine ⟨?_, ?_, ?_, hs.owned⟩
  · intro e
    by_cases he : e = d
    · subst he
      simp only [System.setChannel, Function.update_self]
      exact hs.tx e
    · simp only [System.setChannel, Function.update_of_ne he]
      exact hs.tx e
  · intro e
    by_cases he : e = d
    · subst he
      simp only [System.setChannel, Function.update_self]
      exact (hs.rx e).put h.history_pos _
    · simp only [System.setChannel, Function.update_of_ne he]
      exact hs.rx e
  · intro e q
    exact hs.mine e q

/-- The count of the shutdowns is not in the log. -/
theorem Sound.before_shutdown (hs : Sound h s) (d : Nat) (n : BitVec 64) :
    Sound h (s.setChannel d { s.channel d with ssrcount := n }) := by
  have hrings : ∀ e, ((s.setChannel d { s.channel d with ssrcount := n }).channel e).tx =
      (s.channel e).tx ∧ ((s.setChannel d { s.channel d with ssrcount := n }).channel e).rx =
      (s.channel e).rx := by
    intro e
    by_cases he : e = d
    · subst he
      simp [System.setChannel]
    · simp [System.setChannel, Function.update_of_ne he]
  refine ⟨?_, ?_, ?_, hs.owned⟩
  · intro e
    rw [(hrings e).1]
    exact hs.tx e
  · intro e
    rw [(hrings e).2]
    exact hs.rx e
  · intro e q
    exact hs.mine e q

theorem Sound.step (hs : Sound h s) (a : Act) (hstep : step h num_channels s a = some t) :
    Sound h t := by
  cases a with
  | invoke_send r c =>
    simp only [transport_log.step] at hstep
    split at hstep
    · rename_i hfree
      split at hstep
      · cases hstep
        exact hs
      · split at hstep
        · cases hstep
          exact (hs.write hfree.2 _).take hfree.1 hfree.2
        · cases hstep
          exact hs.write hfree.2 _
    · cases hstep
  | transport_send r err ns xo =>
    simp only [transport_log.step] at hstep
    split at hstep
    · rename_i hr
      cases hstep
      exact hs.transport_send hr err ns xo
    · cases hstep
  | hfastrpc_update_txmsg_buf r =>
    simp only [transport_log.step] at hstep
    split at hstep
    · rename_i hr
      cases hstep
      exact hs.update_txmsg hr
    · cases hstep
  | update_rxmsg_buf d m =>
    cases hstep
    exact hs.update_rxmsg d m
  | reuse ptr m =>
    simp only [transport_log.step] at hstep
    split at hstep
    · rename_i hfree
      cases hstep
      exact hs.write hfree m
    · cases hstep
  | before_shutdown d =>
    cases hstep
    exact hs.before_shutdown d _

theorem sound_run {smsg : Nat → smq_msg}
    (hr : Reachable (step h num_channels) (init smsg) s) : Sound h s := by
  obtain ⟨as, hrun⟩ := hr
  refine run_inv (Sound h) ?_ (sound_init smsg) hrun
  intro u a v hu hstep
  exact hu.step a hstep

/-! ## The log -/

/-- The log of a channel holds the messages that were written down last, as many as it has room
for, in their order. Each thread writes down what it gave to the transport, all of it but for what
it is about to write, also when the context of the message is used again in between; so what was
written down is what was sent, but for the order of the threads, when none of them is between the
transport and the log. -/
theorem the_log_keeps_the_last_messages {smsg : Nat → smq_msg}
    (hr : Reachable (step h num_channels) (init smsg) s) (d : Nat) :
    (s.channel d).tx.entries h.GLINK_MSG_HISTORY_LEN =
        ((s.logged d).map Prod.snd).drop ((s.logged d).length - h.GLINK_MSG_HISTORY_LEN) ∧
      (s.channel d).rx.entries h.GLINK_MSG_HISTORY_LEN =
        (s.received d).drop ((s.received d).length - h.GLINK_MSG_HISTORY_LEN) ∧
      (∀ r, of_thread r (s.sent d) = of_thread r (s.logged d) ++ s.pending d r ∧
        (s.pending d r).length ≤ 1) ∧
      ((∀ r, s.pending d r = []) → (s.logged d).Perm (s.sent d)) := by
  have hs := sound_run hr
  refine ⟨?_, (hs.rx d).entries, ?_, ?_⟩
  · rw [(hs.tx d).entries, List.length_map]
  · intro r
    refine ⟨hs.mine d r, ?_⟩
    cases ht : s.thread r with
    | out => simp [pending_out ht]
    | checked e p isasync => simp [pending_checked ht]
    | sent e p copy err ns xo =>
      rw [pending_sent ht]
      split <;> simp
  · intro hquiet
    apply perm_of_threads
    intro r
    rw [hs.mine d r, hquiet r, List.append_nil]

/-- The history of a channel has two messages. -/
def aLog : LogShared := ⟨1, 2, by decide⟩

def aCall (ptr : Nat) (isasyncjob : Bool) (ctxid : BitVec 64) : Call :=
  ⟨ptr, ⟨7, 0, 1, 0, 0⟩, ctxid, 0, none, 0, isasyncjob, 11, 0, 5⟩

/-- An asynchronous call of thread 1 is overtaken by two calls of thread 2, and its context is used
again before it is written down. -/
def overtaken : List Act :=
  [.invoke_send 1 (aCall 0 true 0x100), .invoke_send 2 (aCall 1 false 0x200),
    .transport_send 1 0 10 3, .reuse 0 ⟨0, 0, 0, 0, 0, 0, 0⟩, .transport_send 2 0 20 4,
    .hfastrpc_update_txmsg_buf 2, .invoke_send 2 (aCall 1 false 0x300), .transport_send 2 0 30 5,
    .hfastrpc_update_txmsg_buf 2, .hfastrpc_update_txmsg_buf 1]

/-- The first message is the last one of the log, with the text that was sent. -/
theorem an_overtaken_message_is_kept :
    ∃ s, run (step aLog 4) (init (fun _ => ⟨0, 0, 0, 0, 0, 0, 0⟩)) overtaken = some s ∧
      ((s.channel 0).tx.entries 2).map (fun m => (m.msg.ctx, m.ns)) = [(0x301, 30), (0x101, 10)] ∧
      (s.logged 0).Perm (s.sent 0) := by
  obtain ⟨s, hs⟩ : ∃ s, run (step aLog 4) (init (fun _ => ⟨0, 0, 0, 0, 0, 0, 0⟩)) overtaken =
    some s := ⟨_, rfl⟩
  have hlog := the_log_keeps_the_last_messages ⟨_, hs⟩ 0
  refine ⟨s, hs, ?_, hlog.2.2.2 ?_⟩
  · cases hs
    decide +kernel
  · intro r
    apply pending_out
    cases hs
    by_cases h1 : r = 1
    · subst h1
      rfl
    · by_cases h2 : r = 2
      · subst h2
        rfl
      · simp [System.setChannel, System.move, init, Function.update_of_ne h1,
          Function.update_of_ne h2]

end

end virtual_fastrpc.transport_log
