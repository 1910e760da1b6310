-- The tx buffers of the transport. A buffer that was handed out is with a
-- message that is not sent yet, or in the send queue. A request that fails
-- between the two loses its buffer, and no other step does.
import PlatformKernel.Transport

namespace virtual_fastrpc.transport

open keyed slots step_runs

/-! ## The places of a tx buffer -/

/-- 1 when the message has the buffer and is not sent yet. -/
def Msg.ownsTx (b : Nat) (m : Msg) : Nat :=
  if (m.phase = .taken ∨ m.phase = .filled) ∧ m.txbuf = some b then 1 else 0

/-- 1 when get_a_tx_buf has not handed out the buffer yet. -/
def notHandedOut (s : Apps) (b : Nat) : Nat := if s.last_sbuf ≤ b then 1 else 0

/-- In how many places the buffer is: not handed out, with an unsent message, in the send
queue. -/
def txPlaces (s : Apps) (b : Nat) : Nat :=
  notHandedOut s b + weight (Msg.ownsTx b) s.msgs + (s.svq_avail.count b + s.svq_used.count b)

/-- 1 when the step fails a request that has the buffer: get_args fails after virt_alloc_msg,
or virtqueue_add_outbuf fails. -/
def txLost (s : Apps) (b : Nat) : Act → Nat
  | .fill p (some _) | .send p true => weight (fun m => if m.id = p then m.ownsTx b else 0) s.msgs
  | _ => 0

/-! ## What each step does to the places -/

theorem ownsTx_of_phase {b : Nat} {m : Msg} (h1 : m.phase ≠ .taken) (h2 : m.phase ≠ .filled) :
    m.ownsTx b = 0 := by
  unfold Msg.ownsTx
  rw [if_neg]
  rintro ⟨h | h, _⟩
  · exact h1 h
  · exact h2 h

theorem ownsTx_attach (d : Driver) (b c : Nat) (m : Msg) :
    (attach d c m).ownsTx b = m.ownsTx b := by
  unfold Msg.ownsTx
  rw [attach_phase, attach_txbuf]

theorem ownsTx_take (b c : Nat) (m : Msg) :
    (m.take c).ownsTx b = if c = b then 1 else 0 := by
  unfold Msg.ownsTx Msg.take
  simp

/-- The buffer of an unsent message is the one that is added to the send queue. -/
theorem ownsTx_filled {b : Nat} {m : Msg} (h : m.phase = .filled) :
    m.ownsTx b = m.txbuf.toList.count b := by
  unfold Msg.ownsTx
  rcases hb : m.txbuf with _ | c
  · simp
  · by_cases hc : c = b
    · simp [h, hc]
    · simp [h, hc]

/-- A change of one message moves its buffer only. -/
theorem weight_setMsg {s : Apps} {m : Msg} {f : Msg → Msg} {b : Nat} (h : Good s)
    (hm : m ∈ s.msgs) :
    weight (Msg.ownsTx b) (s.setMsg m.id f).msgs + m.ownsTx b =
      weight (Msg.ownsTx b) s.msgs + (f m).ownsTx b :=
  weight_update h.unique _ hm rfl

theorem txPlaces_setMsg {s : Apps} {m : Msg} {f : Msg → Msg} {b : Nat} (h : Good s)
    (hm : m ∈ s.msgs) (hf : (f m).ownsTx b = m.ownsTx b) :
    txPlaces (s.setMsg m.id f) b = txPlaces s b := by
  have hw := weight_setMsg (f := f) (b := b) h hm
  have hn : notHandedOut (s.setMsg m.id f) b = notHandedOut s b := rfl
  have h1 : (s.setMsg m.id f).svq_avail = s.svq_avail := rfl
  have h2 : (s.setMsg m.id f).svq_used = s.svq_used := rfl
  unfold txPlaces
  rw [hn, h1, h2]
  omega

/-- A message that has no buffer to send, before and after. -/
theorem txPlaces_goto {s : Apps} {m : Msg} {f : Msg → Msg} {b : Nat} (h : Good s)
    (hm : m ∈ s.msgs) (h1 : m.phase ≠ .taken) (h2 : m.phase ≠ .filled)
    (h3 : (f m).phase ≠ .taken) (h4 : (f m).phase ≠ .filled) :
    txPlaces (s.setMsg m.id f) b = txPlaces s b := by
  apply txPlaces_setMsg h hm
  rw [ownsTx_of_phase h1 h2, ownsTx_of_phase h3 h4]

theorem txPlaces_free {s : Apps} {m : Msg} {b : Nat} (h : Good s) (hm : m ∈ s.msgs)
    (h1 : m.phase ≠ .taken) (h2 : m.phase ≠ .filled) :
    txPlaces (virt_free_msg s m) b = txPlaces s b := by
  have hw : weight (Msg.ownsTx b) (remove Msg.id s.msgs m.id) + m.ownsTx b =
      weight (Msg.ownsTx b) s.msgs := weight_remove h.unique _ hm rfl
  rw [ownsTx_of_phase h1 h2] at hw
  have hn : notHandedOut (virt_free_msg s m) b = notHandedOut s b := rfl
  unfold txPlaces
  rw [hn]
  unfold virt_free_msg
  dsimp only
  omega

theorem txPlaces_insert (s : Apps) (vfl : Nat) (cmd : Cmd) (a : Bool) (size b : Nat) :
    txPlaces (virt_alloc_msg_insert s vfl cmd a size) b = txPlaces s b := by
  unfold virt_alloc_msg_insert
  split
  · rfl
  split
  · unfold txPlaces
    rw [weight_cons, ownsTx_of_phase (by simp) (by simp), Nat.zero_add]
    rfl
  · rfl

theorem txPlaces_take {s : Apps} {m : Msg} {b : Nat} (h : Good s) (hm : m ∈ s.msgs)
    (hp : m.phase = .inserted) : txPlaces (virt_alloc_msg_take s m) b = txPlaces s b := by
  have h1 : m.phase ≠ .taken := by rw [hp]; simp
  have h2 : m.phase ≠ .filled := by rw [hp]; simp
  have hw : ∀ c, weight (Msg.ownsTx b) (s.setMsg m.id (.take c)).msgs =
      weight (Msg.ownsTx b) s.msgs + if c = b then 1 else 0 := by
    intro c
    have := weight_setMsg (f := .take c) (b := b) h hm
    rw [ownsTx_of_phase h1 h2, ownsTx_take] at this
    exact this
  rcases alloc_take_cases s m with ⟨_, he⟩ | ⟨c, bs, _, hc, he⟩ | he
  · rw [he]
    unfold txPlaces notHandedOut
    dsimp only
    rw [hw]
    have hq : (s.setMsg m.id (.take s.last_sbuf)).svq_avail = s.svq_avail := rfl
    have hq' : (s.setMsg m.id (.take s.last_sbuf)).svq_used = s.svq_used := rfl
    rw [hq, hq']
    split_ifs <;> omega
  · rw [he]
    unfold txPlaces notHandedOut
    dsimp only
    rw [hw, hc, List.count_cons]
    have hq : (s.setMsg m.id (.take c)).svq_avail = s.svq_avail := rfl
    have hl : (s.setMsg m.id (.take c)).last_sbuf = s.last_sbuf := rfl
    rw [hq, hl]
    by_cases hcb : c = b
    · simp [hcb]
      omega
    · simp [hcb]
  · rw [he]
    exact txPlaces_free h hm h1 h2

/-- The lost buffer is the buffer of the message that the step names. -/
theorem txLost_eq {s : Apps} {m : Msg} {b : Nat} (h : Good s) (hm : m ∈ s.msgs) :
    weight (fun x => if x.id = m.id then x.ownsTx b else 0) s.msgs = m.ownsTx b := by
  have hw := weight_remove h.unique (fun x => if x.id = m.id then x.ownsTx b else 0) hm rfl
  rw [weight_eq_zero, if_pos rfl] at hw
  · omega
  · intro x hx
    rw [if_neg (mem_remove.mp hx).2]

/-- A request that fails loses its buffer. -/
theorem txPlaces_fail {s : Apps} {m : Msg} {b : Nat} {rsp : Option Nat} (h : Good s)
    (hm : m ∈ s.msgs) :
    txPlaces (s.setMsg m.id (.goto (.closing rsp))) b +
      weight (fun x => if x.id = m.id then x.ownsTx b else 0) s.msgs = txPlaces s b := by
  have hw := weight_setMsg (f := .goto (.closing rsp)) (b := b) h hm
  have hz : (m.goto (.closing rsp)).ownsTx b = 0 := by
    apply ownsTx_of_phase <;> simp [Msg.goto]
  have hn : notHandedOut (s.setMsg m.id (.goto (.closing rsp))) b = notHandedOut s b := rfl
  have h1 : (s.setMsg m.id (.goto (.closing rsp))).svq_avail = s.svq_avail := rfl
  have h2 : (s.setMsg m.id (.goto (.closing rsp))).svq_used = s.svq_used := rfl
  rw [hz] at hw
  rw [txLost_eq h hm]
  unfold txPlaces
  rw [hn, h1, h2]
  omega

theorem txPlaces_send {s : Apps} {m : Msg} {b : Nat} (h : Good s) (hm : m ∈ s.msgs)
    (hp : m.phase = .filled) : txPlaces (vfastrpc_txbuf_send s m false) b = txPlaces s b := by
  have hw := weight_setMsg (f := .goto (if m.isasyncjob then .parked else .waiting)) (b := b) h hm
  have hz : (m.goto (if m.isasyncjob then .parked else .waiting)).ownsTx b = 0 := by
    apply ownsTx_of_phase
    · cases m.isasyncjob <;> simp [Msg.goto]
    · cases m.isasyncjob <;> simp [Msg.goto]
  rw [hz, ownsTx_filled hp] at hw
  have hn : notHandedOut (vfastrpc_txbuf_send s m false) b = notHandedOut s b := rfl
  have h2 : (vfastrpc_txbuf_send s m false).svq_used = s.svq_used := rfl
  have h1 : (vfastrpc_txbuf_send s m false).svq_avail = s.svq_avail ++ m.txbuf.toList := rfl
  have h3 : (vfastrpc_txbuf_send s m false).msgs =
    (s.setMsg m.id (.goto (if m.isasyncjob then .parked else .waiting))).msgs := rfl
  unfold txPlaces
  rw [hn, h1, h2, h3, List.count_append]
  omega

theorem count_erase_of_mem {l : List Nat} {b c : Nat} (h : c ∈ l) :
    (l.erase c).count b + (if c = b then 1 else 0) = l.count b := by
  have := (List.perm_cons_erase h).count_eq b
  rw [List.count_cons] at this
  by_cases hcb : c = b
  · simp [hcb] at this ⊢
    omega
  · simp [hcb] at this ⊢
    omega

theorem txPlaces_used {s : Apps} {b c : Nat} (h : c ∈ s.svq_avail) :
    txPlaces { s with svq_avail := s.svq_avail.erase c, svq_used := s.svq_used ++ [c] } b =
      txPlaces s b := by
  have he := count_erase_of_mem (b := b) h
  unfold txPlaces notHandedOut
  dsimp only
  rw [List.count_append, List.count_singleton]
  by_cases hcb : c = b
  · simp [hcb] at he ⊢
    omega
  · simp [hcb] at he ⊢
    omega

theorem txPlaces_recv {s : Apps} {d : Driver} {rsp : Rsp} {b : Nat} (h : Good s) :
    txPlaces (recv_single d s rsp).1 b = txPlaces s b := by
  rcases recv_single_cases d s rsp with ⟨p, _, hp, he⟩ | ⟨_, he, _⟩
  · rw [he]
    obtain ⟨_, m, hm, rfl, _⟩ := h.live _ _ hp
    exact txPlaces_setMsg h hm (ownsTx_attach d b rsp.buf m)
  · rw [he]

/-- A step leaves every buffer in as many places as it was, but for the buffer of a request
that fails. -/
theorem step_txPlaces {d : Driver} {s t : Apps} {a : Act} (h : Good s)
    (ht : step d s a = some t) (b : Nat) : txPlaces t b + txLost s b a = txPlaces s b := by
  cases a with
  | alloc_insert vfl cmd isasyncjob size =>
    simp only [step] at ht
    split at ht <;> cases ht
    exact txPlaces_insert s vfl cmd isasyncjob size b
  | alloc_take p =>
    obtain ⟨m, hm, _, hp, rfl⟩ := onMsg_some ht
    exact txPlaces_take h hm (by simpa using hp)
  | fill p exit =>
    obtain ⟨m, hm, rfl, hp, rfl⟩ := onMsg_some ht
    have hph : m.phase = .taken := by
      rw [Bool.and_eq_true] at hp
      simpa using hp.1
    cases exit with
    | none =>
      refine txPlaces_setMsg h hm ?_
      unfold Msg.ownsTx
      rw [hph]
      simp [Msg.fill]
    | some e => exact txPlaces_fail h hm
  | send p err =>
    obtain ⟨m, hm, rfl, hp, rfl⟩ := onMsg_some ht
    cases err with
    | false => exact txPlaces_send h hm (by simpa using hp)
    | true => exact txPlaces_fail h hm
  | interrupt p nomem =>
    obtain ⟨m, hm, _, hp, rfl⟩ := onMsg_some ht
    have hp : m.phase = .waiting := by
      simp only [Bool.and_eq_true, beq_iff_eq] at hp
      exact hp.1.1
    apply txPlaces_goto h hm
    · rw [hp]; simp
    · rw [hp]; simp
    · unfold Msg.goto; split <;> simp
    · unfold Msg.goto; split <;> simp
  | resume p =>
    obtain ⟨m, hm, _, hp, rfl⟩ := onMsg_some ht
    have hp : m.phase = .saved := by
      simp only [Bool.and_eq_true, beq_iff_eq] at hp
      exact hp.1
    apply txPlaces_goto h hm <;> simp [hp, Msg.goto]
  | wake p =>
    obtain ⟨m, hm, _, hp, rfl⟩ := onMsg_some ht
    have hp : m.phase = .waiting := by
      simp only [Bool.and_eq_true, beq_iff_eq] at hp
      exact hp.1
    apply txPlaces_goto h hm <;> simp [hp, Msg.wake]
  | collect p =>
    obtain ⟨m, hm, _, hp, rfl⟩ := onMsg_some ht
    have hp : m.phase = .parked := by
      simp only [Bool.and_eq_true, beq_iff_eq] at hp
      exact hp.1.1
    apply txPlaces_goto h hm <;> simp [hp, Msg.collect]
  | repost p err =>
    obtain ⟨m, hm, _, c, hp, rfl⟩ := repost_some ht
    have hset : txPlaces (s.setMsg m.id (.goto .reposted)) b = txPlaces s b := by
      apply txPlaces_goto h hm <;> simp [hp, Msg.goto]
    exact hset
  | free p =>
    obtain ⟨m, hm, _, hp, rfl⟩ := onMsg_some ht
    apply txPlaces_free h hm
    · intro he
      rw [he] at hp
      cases hp
    · intro he
      rw [he] at hp
      cases hp
  | file_free vfl =>
    simp only [step] at ht
    split at ht <;> cases ht
    rfl
  | dtor p =>
    obtain ⟨m, hm, _, hp, rfl⟩ := onMsg_some ht
    have hp : m.phase = .saved ∨ m.phase = .parked := by
      simp only [Bool.and_eq_true, Bool.or_eq_true, beq_iff_eq] at hp
      exact hp.1
    rcases hp with hp | hp
    · apply txPlaces_goto h hm <;> simp [hp, Msg.goto]
    · apply txPlaces_goto h hm <;> simp [hp, Msg.goto]
  | rx_pop =>
    simp only [step] at ht
    split at ht <;> cases ht
    rfl
  | rx_single =>
    obtain ⟨rsp, _, rfl⟩ := rx_single_some ht
    exact txPlaces_recv h
  | tx_used c =>
    simp only [step] at ht
    split at ht <;> cases ht
    exact txPlaces_used ‹_›
  | answer r c len hdr_len =>
    simp only [step] at ht
    split at ht <;> cases ht
    rfl
  | forge rsp =>
    simp only [step] at ht
    split at ht <;> cases ht
    rfl

/-! ## The laws -/

/-- No request fails in the step after virt_alloc_msg gave it its buffer. -/
def TxCalm (_ : Apps) : Act → Prop
  | .fill _ exit => exit = none
  | .send _ err => err = false
  | _ => True

theorem txLost_of_calm {s : Apps} {a : Act} (h : TxCalm s a) (b : Nat) : txLost s b a = 0 := by
  cases a with
  | fill p exit => cases h; rfl
  | send p err => cases h; rfl
  | _ => rfl

/-- In every run without such a failure, each tx buffer is in exactly one place: not handed
out, with one message that is not sent yet, or once in the send queue. -/
theorem every_tx_buffer_is_in_one_place {n size : Nat} {s : Apps}
    (h : ReachableUnder (step .virtio) TxCalm (init n size) s) :
    ∀ b < s.num_bufs, txPlaces s b = 1 := by
  have hinv : Good s ∧ ∀ b, txPlaces s b = 1 := by
    refine h.inv (fun s => Good s ∧ ∀ b, txPlaces s b = 1) ?_ ⟨good_init n size, fun _ => rfl⟩
    intro s a t ⟨hg, hs⟩ hc ht
    refine ⟨step_good .virtio s a t hg ht, fun b => ?_⟩
    have hp := step_txPlaces hg ht b
    rw [txLost_of_calm hc, hs b] at hp
    exact hp
  intro b _
  exact hinv.2 b

/-- After a request was sent, its buffer is in the send queue only. -/
theorem a_sent_buffer_is_in_one_place :
    ∃ s, run (step .virtio) (init 4 4096)
        [.alloc_insert 0 .OPEN false 64, .alloc_take 0, .fill 0 none, .send 0 false] = some s ∧
      s.svq_avail = [0] ∧ txPlaces s 0 = 1 := by
  have hrun : run (step .virtio) (init 4 4096)
      [.alloc_insert 0 .OPEN false 64, .alloc_take 0, .fill 0 none, .send 0 false] =
      some _ := rfl
  refine ⟨_, hrun, rfl, every_tx_buffer_is_in_one_place ⟨_, ?_, hrun⟩ 0 (by decide)⟩
  apply meets_of_forall
  simp [TxCalm]

/-- A buffer that is in no place stays so. -/
theorem a_lost_buffer_stays_lost {d : Driver} {s t : Apps} {b : Nat} (hg : Good s)
    (h : txPlaces s b = 0) (hr : Reachable (step d) s t) : txPlaces t b = 0 := by
  refine (hr.inv (fun u => Good u ∧ txPlaces u b = 0) ?_ ⟨hg, h⟩).2
  intro u a v ⟨hu, hb⟩ hv
  refine ⟨step_good d u a v hu hv, ?_⟩
  have hp := step_txPlaces hu hv b
  omega

/-- The user memory of an in-buffer cannot be read: the invoke fails in get_args, its message
is freed, and its tx buffer is in no place then and ever after. -/
theorem a_failed_invoke_loses_its_tx_buffer :
    ∃ s, run (step .virtio) (init 4 4096)
        [.alloc_insert 0 .INVOKE false 4000, .alloc_take 0, .fill 0 (some .copy_payload),
          .free 0] = some s ∧
      s.msgs = [] ∧ 0 < s.num_bufs ∧ ∀ t, Reachable (step .virtio) s t → txPlaces t 0 = 0 := by
  have hrun : run (step .virtio) (init 4 4096)
      [.alloc_insert 0 .INVOKE false 4000, .alloc_take 0, .fill 0 (some .copy_payload),
        .free 0] = some _ := rfl
  refine ⟨_, hrun, rfl, by decide, fun t ht => ?_⟩
  exact a_lost_buffer_stays_lost (run_inv Good (step_good .virtio) (good_init 4 4096) hrun)
    (by decide) ht

end virtual_fastrpc.transport
