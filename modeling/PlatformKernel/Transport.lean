-- The message transport that each driver has: the message table, the tx
-- buffers of the send queue, the rx buffers of the receive queue, and the
-- backend at the other end. Each step is one critical section of the code.
import PlatformKernel.AdsprpcShared
import PlatformKernel.Lib.Runs
import PlatformKernel.Lib.Keyed
import PlatformKernel.Lib.Slots

namespace virtual_fastrpc.transport

open keyed slots step_runs

def FASTRPC_MSG_MAX : Nat := 256

/-! ## The state of the transport -/

/-- The commands, `VIRTIO_FASTRPC_CMD_OPEN` and so on. -/
inductive Cmd
  | OPEN | CLOSE | INVOKE | MMAP | MUNMAP | CONTROL | GET_DSP_INFO | MUNMAP_FD
  | MEM_MAP | MEM_UNMAP | SMMU_MAP | SMMU_UNMAP
  deriving DecidableEq, Repr

/-- The commands that a driver sends. -/
def sends : Driver → Cmd → Bool
  | .virtio, .SMMU_MAP | .virtio, .SMMU_UNMAP => false
  | .virtio, _ => true
  | .hybrid, .OPEN | .hybrid, .CLOSE | .hybrid, .GET_DSP_INFO => true
  | .hybrid, .SMMU_MAP | .hybrid, .SMMU_UNMAP => true
  | .hybrid, _ => false

/-- The commands that wait with wait_for_completion_interruptible. -/
def Cmd.interruptible : Cmd → Bool
  | .INVOKE | .MUNMAP_FD => true
  | _ => false

/-- Where the list node `asyncn` of the context of a message is. -/
inductive AsyncNode
  | fake | queued | unhashed
  deriving DecidableEq, Repr

/-- How far the call has come that owns a message. -/
inductive Phase
  /-- virt_alloc_msg has put it into the table. -/
  | inserted
  /-- It has its tx buffer, and the request is being written there. -/
  | taken
  /-- The request is written. -/
  | filled
  /-- It is sent, and its caller waits. -/
  | waiting
  /-- It is sent for an asynchronous job, and nobody waits. -/
  | parked
  /-- The wait was interrupted, and the session keeps the message on a list. -/
  | saved
  /-- The wait was interrupted, and save_interrupted_cmds had no memory to keep it. -/
  | lost
  /-- It is to be freed, after `rsp` went back to the receive queue. -/
  | closing (rsp : Option Nat)
  /-- Its response went back to the receive queue, and it is to be freed. -/
  | reposted
  deriving DecidableEq, Repr

structure Msg where
  /-- The message is the `id`-th that virt_alloc_msg made. -/
  id : Nat
  vfl : Nat
  cmd : Cmd
  isasyncjob : Bool
  /-- The field `ctx` is set. -/
  ctx : Bool
  msgid : BitVec 16
  txbuf : Option Nat
  rxbuf : Option Nat
  work : Nat
  asyncn : AsyncNode
  phase : Phase
  deriving DecidableEq, Repr

/-- A request that the backend has got and not answered. -/
structure Request where
  id : Nat
  msgid : BitVec 16
  deriving DecidableEq, Repr

/-- An rx buffer that the backend has filled: the length that the queue reports, the two
fields of the header that the driver reads, and, for the laws, the message it answers. -/
structure Rsp where
  buf : Nat
  len : BitVec 32
  hdr_len : BitVec 32
  msgid : BitVec 16
  answers : Nat
  deriving DecidableEq, Repr

/-- The shared part of `struct vfastrpc_apps`, with both queues. A queue holds the buffers
that its device has still to use, and those it has used. -/
structure Apps where
  num_bufs : Nat
  buf_size : Nat
  msgtable : Nat → Option Nat
  msgs : List Msg
  next : Nat
  last_sbuf : Nat
  svq_avail : List Nat
  svq_used : List Nat
  rvq_avail : List Nat
  rvq_used : List Rsp
  /-- The response that the receive callback has popped and not looked at. -/
  in_hand : Option Rsp
  requests : List Request
  file_close : Nat → Bool

/-- The transport after the probe of the driver. -/
def init (num_bufs buf_size : Nat) : Apps :=
  ⟨num_bufs, buf_size, empty, [], 0, 0, [], [], List.range num_bufs, [], none, [], fun _ => false⟩

def Apps.msg (s : Apps) (p : Nat) : Option Msg := lookup Msg.id s.msgs p

def Apps.setMsg (s : Apps) (p : Nat) (f : Msg → Msg) : Apps :=
  { s with msgs := update Msg.id s.msgs p f }

def Msg.goto (ph : Phase) (m : Msg) : Msg := { m with phase := ph }

/-! ## virt_alloc_msg and virt_free_msg -/

def virt_free_msg (s : Apps) (m : Msg) : Apps :=
  { s with
    msgtable :=
      if s.msgtable m.msgid.toNat = some m.id then put s.msgtable m.msgid.toNat none
      else s.msgtable
    msgs := remove Msg.id s.msgs m.id }

/-- virt_alloc_msg up to the end of its msglock section. -/
def virt_alloc_msg_insert (s : Apps) (vfl : Nat) (cmd : Cmd) (isasyncjob : Bool) (size : Nat) :
    Apps :=
  if s.buf_size < size then s
  else
    match firstFree s.msgtable 0 FASTRPC_MSG_MAX with
    | some i =>
      { s with
        msgtable := put s.msgtable i (some s.next)
        msgs :=
          { id := s.next, vfl, cmd, isasyncjob := isasyncjob && cmd == .INVOKE, ctx := false,
            msgid := BitVec.ofNat 16 i, txbuf := none, rxbuf := none, work := 0,
            asyncn := .fake, phase := .inserted } :: s.msgs
        next := s.next + 1 }
    | none => s

def get_a_tx_buf (s : Apps) : Option Nat × Apps :=
  if s.last_sbuf < s.num_bufs then (some s.last_sbuf, { s with last_sbuf := s.last_sbuf + 1 })
  else
    match s.svq_used with
    | b :: bs => (some b, { s with svq_used := bs })
    | [] => (none, s)

def Msg.take (b : Nat) (m : Msg) : Msg := { m with txbuf := some b, phase := .taken }

/-- The rest of virt_alloc_msg. -/
def virt_alloc_msg_take (s : Apps) (m : Msg) : Apps :=
  match get_a_tx_buf s with
  | (some b, s) => s.setMsg m.id (.take b)
  | (none, s) => virt_free_msg s m

/-! ## Sending -/

/-- The ways that get_args fails after virt_alloc_msg. No other command has one. -/
inductive GetArgsExit
  | find_vma | invalid_offset | copy_internal | copy_payload
  deriving DecidableEq, Repr

def Msg.fill (m : Msg) : Msg := { m with ctx := m.cmd == .INVOKE, phase := .filled }

/-- The request is written into the tx buffer, or get_args fails and context_free runs. -/
def fill_txbuf (s : Apps) (m : Msg) : Option GetArgsExit → Apps
  | none => s.setMsg m.id .fill
  | some _ => s.setMsg m.id (.goto (.closing m.rxbuf))

/-- vfastrpc_txbuf_send. When virtqueue_add_outbuf fails, context_free sends back the response
of an invoke; the other commands have none at that point. -/
def vfastrpc_txbuf_send (s : Apps) (m : Msg) (err : Bool) : Apps :=
  if err then
    s.setMsg m.id (.goto (.closing (if m.cmd = .INVOKE then m.rxbuf else none)))
  else
    { s.setMsg m.id (.goto (if m.isasyncjob then .parked else .waiting)) with
      svq_avail := s.svq_avail ++ m.txbuf.toList
      requests := s.requests ++ [⟨m.id, m.msgid⟩] }

/-! ## Waiting -/

/-- A signal ends the wait: context_save_interrupted, or save_interrupted_cmds, which may
find no memory. -/
def save_interrupted (s : Apps) (m : Msg) (nomem : Bool) : Apps :=
  s.setMsg m.id (.goto (if m.cmd = .MUNMAP_FD ∧ nomem then .lost else .saved))

def Msg.wake (m : Msg) : Msg := { m with work := m.work - 1, phase := .closing m.rxbuf }

/-- vfastrpc_wait_on_async_queue takes the context from the queue. -/
def Msg.collect (m : Msg) : Msg :=
  { m with asyncn := .unhashed, phase := .closing m.rxbuf }

def vfastrpc_rxbuf_send (s : Apps) (m : Msg) (b : Nat) (err : Bool) : Apps :=
  { s.setMsg m.id (.goto .reposted) with
    rvq_avail := if err then s.rvq_avail else s.rvq_avail ++ [b] }

/-! ## Receiving -/

def complete (m : Msg) : Msg := { m with work := m.work + 1 }

def vfastrpc_queue_completed_async_job (m : Msg) : Msg :=
  if m.asyncn = .unhashed then m else { m with asyncn := .queued }

/-- What recv_single does with the message it finds. -/
def attach (d : Driver) (b : Nat) (m : Msg) : Msg :=
  match d with
  | .virtio =>
    if m.ctx && m.isasyncjob then vfastrpc_queue_completed_async_job { m with rxbuf := some b }
    else complete { m with rxbuf := some b }
  | .hybrid => complete { m with rxbuf := some b }

inductive Recv
  | len_mismatch
  | already_free
  | attached (p : Nat)
  deriving DecidableEq, Repr

def recv_single (d : Driver) (s : Apps) (rsp : Rsp) : Apps × Recv :=
  if rsp.len ≠ rsp.hdr_len then (s, .len_mismatch)
  else
    match s.msgtable rsp.msgid.toNat with
    | none => (s, .already_free)
    | some p => (s.setMsg p (attach d rsp.buf), .attached p)

/-- The entries of the table that recv_single reads. -/
def recv_reads (rsp : Rsp) : List Nat :=
  if rsp.len ≠ rsp.hdr_len then [] else [rsp.msgid.toNat]

/-- The loop of recv_done and fastrpc_vq_callback over the used ring, with the entries of the
table that it reads. -/
def recv_loop (d : Driver) (s : Apps) : List Rsp → Apps × List Nat
  | [] => ({ s with rvq_used := [] }, [])
  | rsp :: rest =>
    match recv_single d s rsp with
    | (t, .attached _) => ((recv_loop d t rest).1, recv_reads rsp ++ (recv_loop d t rest).2)
    | (t, _) => ({ t with rvq_used := rest }, recv_reads rsp)

/-- The receive callback, `recv_done` of the one driver and `fastrpc_vq_callback` of the
other. -/
def recv_done (d : Driver) (s : Apps) : Apps × List Nat := recv_loop d s s.rvq_used

/-! ## The machine -/

inductive Act
  | alloc_insert (vfl : Nat) (cmd : Cmd) (isasyncjob : Bool) (size : Nat)
  | alloc_take (p : Nat)
  | fill (p : Nat) (exit : Option GetArgsExit)
  | send (p : Nat) (err : Bool)
  | interrupt (p : Nat) (nomem : Bool)
  | resume (p : Nat)
  | wake (p : Nat)
  | collect (p : Nat)
  | repost (p : Nat) (err : Bool)
  | free (p : Nat)
  /-- The last reference to the file goes away, and vfastrpc_file_free starts. -/
  | file_free (vfl : Nat)
  /-- vfastrpc_context_list_dtor or vfastrpc_interrupted_cmd_list_free reaches the message. -/
  | dtor (p : Nat)
  /-- The callback pops a response, and later looks at it. -/
  | rx_pop
  | rx_single
  /-- The device is done with a tx buffer. -/
  | tx_used (b : Nat)
  /-- The backend answers a request into an rx buffer. -/
  | answer (r : Request) (b : Nat) (len hdr_len : BitVec 32)
  /-- The device fills an rx buffer with anything else. -/
  | forge (rsp : Rsp)
  deriving DecidableEq, Repr

def onMsg (s : Apps) (p : Nat) (ok : Msg → Bool) (f : Msg → Apps) : Option Apps :=
  match s.msg p with
  | some m => if ok m then some (f m) else none
  | none => none

/-- The phases in which no call is under way for a message. -/
def Phase.resting : Phase → Bool
  | .parked | .saved | .lost => true
  | _ => false

def step (d : Driver) (s : Apps) : Act → Option Apps
  | .alloc_insert vfl cmd isasyncjob size =>
    if sends d cmd && (!s.file_close vfl || cmd == .CLOSE) then
      some (virt_alloc_msg_insert s vfl cmd isasyncjob size)
    else none
  | .alloc_take p => onMsg s p (·.phase == .inserted) (virt_alloc_msg_take s)
  | .fill p exit =>
    onMsg s p (fun m => m.phase == .taken && (exit.isNone || m.cmd == .INVOKE)) fun m =>
      fill_txbuf s m exit
  | .send p err => onMsg s p (·.phase == .filled) fun m => vfastrpc_txbuf_send s m err
  | .interrupt p nomem =>
    onMsg s p (fun m => m.phase == .waiting && m.work == 0 && m.cmd.interruptible) fun m =>
      save_interrupted s m nomem
  | .resume p =>
    onMsg s p (fun m => m.phase == .saved && !s.file_close m.vfl) fun m =>
      s.setMsg m.id (.goto .waiting)
  | .wake p => onMsg s p (fun m => m.phase == .waiting && m.work != 0) fun m =>
      s.setMsg m.id .wake
  | .collect p =>
    onMsg s p (fun m => m.phase == .parked && m.asyncn == .queued && !s.file_close m.vfl) fun m =>
      s.setMsg m.id .collect
  | .repost p err =>
    match s.msg p with
    | some m =>
      match m.phase with
      | .closing (some b) => some (vfastrpc_rxbuf_send s m b err)
      | _ => none
    | none => none
  | .free p => onMsg s p (fun m => m.phase == .closing none || m.phase == .reposted)
      (virt_free_msg s)
  | .file_free vfl =>
    if s.msgs.all (fun m => m.vfl != vfl || m.phase.resting) then
      some { s with file_close := fun v => v == vfl || s.file_close v }
    else none
  | .dtor p =>
    onMsg s p (fun m => (m.phase == .saved || m.phase == .parked) && s.file_close m.vfl) fun m =>
      s.setMsg m.id (.goto (.closing m.rxbuf))
  | .rx_pop =>
    match s.in_hand, s.rvq_used with
    | none, rsp :: rest => some { s with in_hand := some rsp, rvq_used := rest }
    | _, _ => none
  | .rx_single =>
    match s.in_hand with
    | some rsp =>
      -- a read past the table has no defined result, so the run ends there
      if (recv_reads rsp).all (· < FASTRPC_MSG_MAX) then
        some { (recv_single d s rsp).1 with in_hand := none }
      else none
    | none => none
  | .tx_used b =>
    if b ∈ s.svq_avail then
      some { s with svq_avail := s.svq_avail.erase b, svq_used := s.svq_used ++ [b] }
    else none
  | .answer r b len hdr_len =>
    if r ∈ s.requests ∧ b ∈ s.rvq_avail then
      some { s with
        requests := s.requests.erase r
        rvq_avail := s.rvq_avail.erase b
        rvq_used := s.rvq_used ++ [⟨b, len, hdr_len, r.msgid, r.id⟩] }
    else none
  | .forge rsp =>
    if rsp.buf ∈ s.rvq_avail then
      some { s with rvq_avail := s.rvq_avail.erase rsp.buf, rvq_used := s.rvq_used ++ [rsp] }
    else none

/-! ## What a step on one message changes -/

theorem onMsg_some {s t : Apps} {p : Nat} {ok : Msg → Bool} {f : Msg → Apps}
    (h : onMsg s p ok f = some t) : ∃ m ∈ s.msgs, m.id = p ∧ ok m = true ∧ t = f m := by
  unfold onMsg at h
  split at h
  · rename_i m hm
    split at h
    · cases h
      exact ⟨m, mem_of_lookup hm, key_of_lookup hm, ‹_›, rfl⟩
    · cases h
  · cases h

theorem repost_some {d : Driver} {s t : Apps} {p : Nat} {err : Bool}
    (h : step d s (.repost p err) = some t) :
    ∃ m ∈ s.msgs, m.id = p ∧ ∃ b, m.phase = .closing (some b) ∧
      t = vfastrpc_rxbuf_send s m b err := by
  simp only [step] at h
  split at h
  · rename_i m hm
    split at h
    · rename_i b hb
      cases h
      exact ⟨m, mem_of_lookup hm, key_of_lookup hm, b, hb, rfl⟩
    · cases h
  · cases h

theorem rx_single_some {d : Driver} {s t : Apps} (h : step d s .rx_single = some t) :
    ∃ rsp, s.in_hand = some rsp ∧ t = { (recv_single d s rsp).1 with in_hand := none } := by
  simp only [step] at h
  split at h
  · rename_i rsp hrsp
    split at h
    · cases h
      exact ⟨rsp, hrsp, rfl⟩
    · cases h
  · cases h

/-- What recv_single can do: it changes the one message of the entry that the response
names, or nothing. -/
theorem recv_single_cases (d : Driver) (s : Apps) (rsp : Rsp) :
    (∃ p, rsp.len = rsp.hdr_len ∧ s.msgtable rsp.msgid.toNat = some p ∧
      recv_single d s rsp = (s.setMsg p (attach d rsp.buf), .attached p)) ∨
    ((rsp.len = rsp.hdr_len → s.msgtable rsp.msgid.toNat = none) ∧
      (recv_single d s rsp).1 = s ∧ ∀ p, (recv_single d s rsp).2 ≠ .attached p) := by
  unfold recv_single
  split
  · rename_i hlen
    exact Or.inr ⟨fun h => absurd h hlen, rfl, by simp⟩
  · rename_i hlen
    split
    · rename_i hfree
      exact Or.inr ⟨fun _ => hfree, rfl, by simp⟩
    · rename_i p hp
      exact Or.inl ⟨p, by simpa using hlen, hp, rfl⟩

/-- A change of a message that keeps its name and its entry. -/
structure Msg.Keeps (f : Msg → Msg) : Prop where
  id : ∀ m, (f m).id = m.id
  msgid : ∀ m, (f m).msgid = m.msgid

theorem keeps_goto (ph : Phase) : Msg.Keeps (.goto ph) := ⟨fun _ => rfl, fun _ => rfl⟩

theorem keeps_take (b : Nat) : Msg.Keeps (.take b) := ⟨fun _ => rfl, fun _ => rfl⟩

theorem keeps_fill : Msg.Keeps .fill := ⟨fun _ => rfl, fun _ => rfl⟩

theorem keeps_wake : Msg.Keeps .wake := ⟨fun _ => rfl, fun _ => rfl⟩

theorem keeps_collect : Msg.Keeps .collect := ⟨fun _ => rfl, fun _ => rfl⟩

/-- An attached response sets `rxbuf`, and changes no other field but `work` and `asyncn`. -/
theorem attach_eq (d : Driver) (b : Nat) (m : Msg) :
    attach d b m = { m with
      rxbuf := some b, work := (attach d b m).work, asyncn := (attach d b m).asyncn } := by
  unfold attach
  cases d with
  | hybrid => rfl
  | virtio =>
    dsimp only
    split
    · unfold vfastrpc_queue_completed_async_job
      split <;> rfl
    · rfl

theorem attach_rxbuf (d : Driver) (b : Nat) (m : Msg) : (attach d b m).rxbuf = some b := by
  rw [attach_eq]

theorem attach_phase (d : Driver) (b : Nat) (m : Msg) : (attach d b m).phase = m.phase := by
  rw [attach_eq]

theorem attach_txbuf (d : Driver) (b : Nat) (m : Msg) : (attach d b m).txbuf = m.txbuf := by
  rw [attach_eq]

theorem keeps_attach (d : Driver) (b : Nat) : Msg.Keeps (attach d b) :=
  ⟨fun m => by rw [attach_eq], fun m => by rw [attach_eq]⟩

/-! ## The message table -/

/-- The phases that a message leaves only to be freed, with a response of its own. -/
def Phase.hasRsp : Phase → Bool
  | .closing (some _) | .reposted => true
  | _ => false

/-- The table and the messages name each other. -/
structure Good (s : Apps) : Prop where
  unique : Unique Msg.id s.msgs
  fresh : ∀ m ∈ s.msgs, m.id < s.next
  tabled : ∀ m ∈ s.msgs, s.msgtable m.msgid.toNat = some m.id
  live : ∀ i p, s.msgtable i = some p → i < FASTRPC_MSG_MAX ∧
    ∃ m ∈ s.msgs, m.id = p ∧ m.msgid.toNat = i
  has_rsp : ∀ m ∈ s.msgs, m.phase.hasRsp = true → m.rxbuf ≠ none

theorem good_init (n size : Nat) : Good (init n size) where
  unique := List.nodup_nil
  fresh := by intro m hm; cases hm
  tabled := by intro m hm; cases hm
  live := by intro i p h; cases h
  has_rsp := by intro m hm; cases hm

/-- A property of every message survives a change of one of them that keeps it. -/
theorem forall_setMsg {s : Apps} {m : Msg} {f : Msg → Msg} {P : Msg → Prop}
    (hu : Unique Msg.id s.msgs) (hm : m ∈ s.msgs) (h : ∀ x ∈ s.msgs, x.id ≠ m.id → P x)
    (hf : P (f m)) : ∀ x ∈ (s.setMsg m.id f).msgs, P x := by
  intro x hx
  rcases mem_update.mp hx with ⟨hx, hne⟩ | ⟨y, hy, hk, rfl⟩
  · exact h x hx hne
  · rw [hu.eq hy hm hk]
    exact hf

theorem Good.setMsg {s : Apps} (h : Good s) {m : Msg} (hm : m ∈ s.msgs) {f : Msg → Msg}
    (hf : Msg.Keeps f) (hr : (f m).phase.hasRsp = true → (f m).rxbuf ≠ none) :
    Good (s.setMsg m.id f) := by
  refine ⟨h.unique.update hf.id, ?_, ?_, ?_, ?_⟩
  · refine forall_setMsg h.unique hm (fun x hx _ => h.fresh x hx) ?_
    rw [hf.id]
    exact h.fresh m hm
  · refine forall_setMsg h.unique hm (fun x hx _ => h.tabled x hx) ?_
    rw [hf.id, hf.msgid]
    exact h.tabled m hm
  · intro i p hp
    obtain ⟨hi, x, hx, hxp, hxi⟩ := h.live i p hp
    refine ⟨hi, ?_⟩
    by_cases hxm : x.id = m.id
    · have := h.unique.eq hx hm hxm
      subst this
      refine ⟨f x, mem_update.mpr (Or.inr ⟨x, hx, rfl, rfl⟩), ?_, ?_⟩
      · rw [hf.id]; exact hxp
      · rw [hf.msgid]; exact hxi
    · exact ⟨x, mem_update.mpr (Or.inl ⟨hx, hxm⟩), hxp, hxi⟩
  · exact forall_setMsg h.unique hm (fun x hx _ => h.has_rsp x hx) hr

theorem Good.insert {s : Apps} (h : Good s) (vfl : Nat) (cmd : Cmd) (a : Bool) (size : Nat) :
    Good (virt_alloc_msg_insert s vfl cmd a size) := by
  unfold virt_alloc_msg_insert
  split
  · exact h
  split
  · rename_i i hi
    obtain ⟨_, hlt, hfree⟩ := firstFree_some hi
    have hi16 : (BitVec.ofNat 16 i).toNat = i := by
      rw [BitVec.toNat_ofNat]
      unfold FASTRPC_MSG_MAX at hlt
      omega
    have hother : ∀ m ∈ s.msgs, m.msgid.toNat ≠ i := by
      intro m hm he
      have := h.tabled m hm
      rw [he, hfree] at this
      cases this
    refine ⟨h.unique.cons ?_, ?_, ?_, ?_, ?_⟩
    · intro m hm he
      exact absurd (h.fresh m hm) (by rw [he]; simp)
    · intro m hm
      rcases List.mem_cons.mp hm with rfl | hm
      · exact Nat.lt_succ_self _
      · exact Nat.lt_succ_of_lt (h.fresh m hm)
    · intro m hm
      rcases List.mem_cons.mp hm with rfl | hm
      · dsimp only
        rw [hi16, put_self]
      · dsimp only
        rw [put_ne (hother m hm)]
        exact h.tabled m hm
    · intro j p hp
      dsimp only at hp
      by_cases hj : j = i
      · subst hj
        rw [put_self] at hp
        cases hp
        exact ⟨hlt, _, List.mem_cons_self, rfl, hi16⟩
      · rw [put_ne hj] at hp
        obtain ⟨hj', m, hm, hrest⟩ := h.live j p hp
        exact ⟨hj', m, List.mem_cons_of_mem _ hm, hrest⟩
    · intro m hm hr
      rcases List.mem_cons.mp hm with rfl | hm
      · cases hr
      · exact h.has_rsp m hm hr
  · exact h

theorem Good.free {s : Apps} (h : Good s) {m : Msg} (hm : m ∈ s.msgs) :
    Good (virt_free_msg s m) := by
  have hentry := h.tabled m hm
  have hother : ∀ x ∈ s.msgs, x.id ≠ m.id → x.msgid.toNat ≠ m.msgid.toNat := by
    intro x hx hne he
    have := h.tabled x hx
    rw [he, hentry] at this
    exact hne (Option.some.inj this).symm
  unfold virt_free_msg
  rw [if_pos hentry]
  refine ⟨h.unique.remove, ?_, ?_, ?_, ?_⟩
  · intro x hx
    exact h.fresh x (mem_remove.mp hx).1
  · intro x hx
    obtain ⟨hx, hne⟩ := mem_remove.mp hx
    dsimp only
    rw [put_ne (hother x hx hne)]
    exact h.tabled x hx
  · intro i p hp
    dsimp only at hp
    by_cases hi : i = m.msgid.toNat
    · subst hi
      rw [put_self] at hp
      cases hp
    · rw [put_ne hi] at hp
      obtain ⟨hlt, x, hx, hxp, hxi⟩ := h.live i p hp
      refine ⟨hlt, x, mem_remove.mpr ⟨hx, fun he => ?_⟩, hxp, hxi⟩
      have := h.unique.eq hx hm he
      subst this
      exact hi hxi.symm
  · intro x hx
    exact h.has_rsp x (mem_remove.mp hx).1

/-- The table does not depend on the queues. -/
theorem Good.queues {s t : Apps} (h : Good s) (h1 : t.msgs = s.msgs) (h2 : t.next = s.next)
    (h3 : t.msgtable = s.msgtable) : Good t := by
  refine ⟨by rw [h1]; exact h.unique, ?_, ?_, ?_, ?_⟩
  · rw [h1, h2]; exact h.fresh
  · rw [h1, h3]; exact h.tabled
  · rw [h1, h3]; exact h.live
  · rw [h1]; exact h.has_rsp

/-- What the rest of virt_alloc_msg can do: the message takes a buffer that was never handed
out, or one that the device has used, or it is freed. -/
theorem alloc_take_cases (s : Apps) (m : Msg) :
    (s.last_sbuf < s.num_bufs ∧ virt_alloc_msg_take s m =
      { s.setMsg m.id (.take s.last_sbuf) with last_sbuf := s.last_sbuf + 1 }) ∨
    (∃ b bs, s.num_bufs ≤ s.last_sbuf ∧ s.svq_used = b :: bs ∧
      virt_alloc_msg_take s m = { s.setMsg m.id (.take b) with svq_used := bs }) ∨
    virt_alloc_msg_take s m = virt_free_msg s m := by
  unfold virt_alloc_msg_take get_a_tx_buf
  by_cases hl : s.last_sbuf < s.num_bufs
  · rw [if_pos hl]
    exact Or.inl ⟨hl, rfl⟩
  · rw [if_neg hl]
    rcases hb : s.svq_used with _ | ⟨b, bs⟩
    · exact Or.inr (Or.inr rfl)
    · exact Or.inr (Or.inl ⟨b, bs, by omega, rfl, rfl⟩)

theorem Good.take {s : Apps} (h : Good s) {m : Msg} (hm : m ∈ s.msgs) :
    Good (virt_alloc_msg_take s m) := by
  have hset : ∀ b, Good (s.setMsg m.id (.take b)) := by
    intro b
    exact h.setMsg hm (keeps_take b) (fun hr => by cases hr)
  rcases alloc_take_cases s m with ⟨_, he⟩ | ⟨b, bs, _, _, he⟩ | he
  · rw [he]
    exact (hset _).queues rfl rfl rfl
  · rw [he]
    exact (hset b).queues rfl rfl rfl
  · rw [he]
    exact h.free hm

theorem Good.recv {s : Apps} (h : Good s) (d : Driver) (rsp : Rsp) :
    Good (recv_single d s rsp).1 := by
  rcases recv_single_cases d s rsp with ⟨p, _, hp, he⟩ | ⟨_, he, _⟩
  · rw [he]
    obtain ⟨_, m, hm, rfl, _⟩ := h.live _ _ hp
    refine h.setMsg hm (keeps_attach d _) (fun _ => ?_)
    rw [attach_rxbuf]
    exact Option.some_ne_none _
  · rw [he]
    exact h

/-- A message that goes to its end with the response it has. -/
theorem closing_hasRsp {rsp : Option Nat} (h : (Phase.closing rsp).hasRsp = true) :
    rsp ≠ none := by
  cases rsp with
  | none => cases h
  | some b => exact Option.some_ne_none b

/-- Every step keeps the table. -/
theorem step_good (d : Driver) (s : Apps) (a : Act) (t : Apps) (h : Good s)
    (ht : step d s a = some t) : Good t := by
  cases a with
  | alloc_insert vfl cmd isasyncjob size =>
    simp only [step] at ht
    split at ht <;> cases ht
    exact h.insert vfl cmd isasyncjob size
  | alloc_take p =>
    obtain ⟨m, hm, _, _, rfl⟩ := onMsg_some ht
    exact h.take hm
  | fill p exit =>
    obtain ⟨m, hm, _, _, rfl⟩ := onMsg_some ht
    cases exit with
    | none => exact h.setMsg hm keeps_fill (fun hr => by cases hr)
    | some e => exact h.setMsg hm (keeps_goto _) closing_hasRsp
  | send p err =>
    obtain ⟨m, hm, _, _, rfl⟩ := onMsg_some ht
    unfold vfastrpc_txbuf_send
    split
    · refine h.setMsg hm (keeps_goto _) (fun hr => ?_)
      have := closing_hasRsp hr
      split at this
      · exact this
      · exact absurd rfl this
    · have hg : Good (s.setMsg m.id (.goto (if m.isasyncjob then .parked else .waiting))) := by
        refine h.setMsg hm (keeps_goto _) (fun hr => ?_)
        cases hj : m.isasyncjob <;> simp [Msg.goto, hj, Phase.hasRsp] at hr
      exact hg.queues rfl rfl rfl
  | interrupt p nomem =>
    obtain ⟨m, hm, _, _, rfl⟩ := onMsg_some ht
    refine h.setMsg hm (keeps_goto _) (fun hr => ?_)
    simp only [Msg.goto] at hr
    split at hr <;> cases hr
  | resume p =>
    obtain ⟨m, hm, _, _, rfl⟩ := onMsg_some ht
    exact h.setMsg hm (keeps_goto _) (fun hr => by cases hr)
  | wake p =>
    obtain ⟨m, hm, _, _, rfl⟩ := onMsg_some ht
    exact h.setMsg hm keeps_wake closing_hasRsp
  | collect p =>
    obtain ⟨m, hm, _, _, rfl⟩ := onMsg_some ht
    exact h.setMsg hm keeps_collect closing_hasRsp
  | repost p err =>
    obtain ⟨m, hm, _, b, hph, rfl⟩ := repost_some ht
    have hg : Good (s.setMsg m.id (.goto .reposted)) := by
      refine h.setMsg hm (keeps_goto _) (fun _ => ?_)
      exact h.has_rsp m hm (by rw [hph]; rfl)
    exact hg.queues rfl rfl rfl
  | free p =>
    obtain ⟨m, hm, _, _, rfl⟩ := onMsg_some ht
    exact h.free hm
  | file_free vfl =>
    simp only [step] at ht
    split at ht <;> cases ht
    exact h.queues rfl rfl rfl
  | dtor p =>
    obtain ⟨m, hm, _, _, rfl⟩ := onMsg_some ht
    exact h.setMsg hm (keeps_goto _) closing_hasRsp
  | rx_pop =>
    simp only [step] at ht
    split at ht <;> cases ht
    exact h.queues rfl rfl rfl
  | rx_single =>
    obtain ⟨rsp, _, rfl⟩ := rx_single_some ht
    exact (h.recv d rsp).queues rfl rfl rfl
  | tx_used b =>
    simp only [step] at ht
    split at ht <;> cases ht
    exact h.queues rfl rfl rfl
  | answer r b len hdr_len =>
    simp only [step] at ht
    split at ht <;> cases ht
    exact h.queues rfl rfl rfl
  | forge rsp =>
    simp only [step] at ht
    split at ht <;> cases ht
    exact h.queues rfl rfl rfl

end virtual_fastrpc.transport
