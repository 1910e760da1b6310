-- The rx buffers of the transport, over one call of the receive callback.
-- The callback pops the responses of the used ring one by one and stops at
-- the first that it rejects. The laws say which used rings it handles well.
import PlatformKernel.Transport

namespace virtual_fastrpc.transport

open keyed slots step_runs

/-! ## The places of an rx buffer -/

/-- 1 when the buffer is attached to the message. After vfastrpc_rxbuf_send the field still
names the buffer, but the receive queue has it. -/
def Msg.holdsRx (b : Nat) (m : Msg) : Nat :=
  if m.phase ≠ .reposted ∧ m.rxbuf = some b then 1 else 0

/-- In how many places the buffer is, with the used ring `l`: posted in the receive queue,
unpopped in the used ring, attached to a message. -/
def rxCount (s : Apps) (l : List Rsp) (b : Nat) : Nat :=
  s.rvq_avail.count b + (l.map Rsp.buf).count b + weight (Msg.holdsRx b) s.msgs

def rxPlaces (s : Apps) (b : Nat) : Nat := rxCount s s.rvq_used b

/-- Each rx buffer is in exactly one place, and nothing else is there. -/
def RxConserved (s : Apps) : Prop := ∀ b, rxPlaces s b = if b < s.num_bufs then 1 else 0

/-! ## What the callback is for -/

/-- What the callback has to do with the responses `l`: it reads only entries of the table,
it loses no rx buffer, and it leaves no response behind. -/
structure Dispatched (d : Driver) (s : Apps) (l : List Rsp) : Prop where
  reads : ∀ i ∈ (recv_loop d s l).2, i < FASTRPC_MSG_MAX
  conserved : RxConserved (recv_loop d s l).1
  drained : (recv_loop d s l).1.rvq_used = []

/-- The response has the length it says, and names an entry of the table with a message that
has no response yet. -/
def Answerable (s : Apps) (rsp : Rsp) : Prop :=
  rsp.len = rsp.hdr_len ∧ rsp.msgid.toNat < FASTRPC_MSG_MAX ∧
    ∃ p m, s.msgtable rsp.msgid.toNat = some p ∧ s.msg p = some m ∧ m.rxbuf = none

/-- All responses are so, and no two name the same entry. -/
def AllAnswerable (s : Apps) (l : List Rsp) : Prop :=
  (∀ rsp ∈ l, Answerable s rsp) ∧ (l.map Rsp.msgid).Nodup

/-! ## What an attached response does to the places -/

theorem holdsRx_attach (d : Driver) (b c : Nat) (m : Msg) :
    (attach d c m).holdsRx b = if m.phase ≠ .reposted ∧ c = b then 1 else 0 := by
  unfold Msg.holdsRx
  rw [attach_phase, attach_rxbuf]
  simp

theorem rxCount_cons (s : Apps) (rsp : Rsp) (l : List Rsp) (b : Nat) :
    rxCount s (rsp :: l) b = rxCount s l b + if rsp.buf = b then 1 else 0 := by
  unfold rxCount
  rw [List.map_cons, List.count_cons]
  by_cases h : rsp.buf = b
  · simp [h]
    omega
  · simp [h]

/-- The message gives up the buffer it had, and gets the new one. -/
theorem rxCount_attach {s : Apps} {m : Msg} (h : Good s) (hm : m ∈ s.msgs) (d : Driver)
    (l : List Rsp) (c b : Nat) :
    rxCount (s.setMsg m.id (attach d c)) l b + m.holdsRx b =
      rxCount s l b + if m.phase ≠ .reposted ∧ c = b then 1 else 0 := by
  have hw : weight (Msg.holdsRx b) (s.setMsg m.id (attach d c)).msgs + m.holdsRx b =
      weight (Msg.holdsRx b) s.msgs + (attach d c m).holdsRx b :=
    weight_update h.unique _ hm rfl
  rw [holdsRx_attach] at hw
  have ha : (s.setMsg m.id (attach d c)).rvq_avail = s.rvq_avail := rfl
  unfold rxCount
  rw [ha]
  omega

/-- A response that is attached goes on with the rest of the ring. -/
theorem recv_loop_attached {d : Driver} {s t : Apps} {rsp : Rsp} {rest : List Rsp} {p : Nat}
    (h : recv_single d s rsp = (t, .attached p)) :
    recv_loop d s (rsp :: rest) =
      ((recv_loop d t rest).1, recv_reads rsp ++ (recv_loop d t rest).2) := by
  conv_lhs => unfold recv_loop
  rw [h]

/-- A response that is rejected ends the loop, with its buffer popped. -/
theorem recv_loop_rejected {d : Driver} {s : Apps} {rsp : Rsp} {rest : List Rsp}
    (he : (recv_single d s rsp).1 = s) (hno : ∀ p, (recv_single d s rsp).2 ≠ .attached p) :
    recv_loop d s (rsp :: rest) = ({ s with rvq_used := rest }, recv_reads rsp) := by
  conv_lhs => unfold recv_loop
  rcases hrs : recv_single d s rsp with ⟨t, o⟩
  rw [hrs] at he hno
  cases o with
  | attached p => exact absurd rfl (hno p)
  | len_mismatch => dsimp only at he ⊢; rw [he]
  | already_free => dsimp only at he ⊢; rw [he]

theorem num_bufs_recv_loop (d : Driver) (s : Apps) (l : List Rsp) :
    (recv_loop d s l).1.num_bufs = s.num_bufs := by
  induction l generalizing s with
  | nil => rfl
  | cons rsp rest ih =>
    rcases recv_single_cases d s rsp with ⟨p, _, _, he⟩ | ⟨_, he, hno⟩
    · rw [recv_loop_attached he]
      exact ih _
    · rw [recv_loop_rejected he hno]

/-- The callback never brings back a buffer that is in no place. -/
theorem rxPlaces_recv_loop_le (d : Driver) {s : Apps} (h : Good s) (l : List Rsp) (b : Nat) :
    rxPlaces (recv_loop d s l).1 b ≤ rxCount s l b := by
  induction l generalizing s with
  | nil => exact Nat.le_refl _
  | cons rsp rest ih =>
    rw [rxCount_cons]
    rcases recv_single_cases d s rsp with ⟨p, _, hp, he⟩ | ⟨_, he, hno⟩
    · rw [recv_loop_attached he]
      have hg := h.recv d rsp
      rw [he] at hg
      obtain ⟨_, m, hm, rfl, _⟩ := h.live _ _ hp
      have h1 := ih hg
      have h2 := rxCount_attach h hm d rest rsp.buf b
      dsimp only at h1 ⊢
      by_cases hb : rsp.buf = b
      · rw [if_pos hb]
        split at h2 <;> omega
      · rw [if_neg hb]
        rw [if_neg (fun hx => hb hx.2)] at h2
        omega
    · rw [recv_loop_rejected he hno]
      exact Nat.le_add_right _ _

/-- A buffer in no place is one that the callback has lost. -/
theorem not_dispatched_of_lost {d : Driver} {s : Apps} {l : List Rsp} {b : Nat}
    (hb : b < s.num_bufs) (h : rxPlaces (recv_loop d s l).1 b = 0) : ¬ Dispatched d s l := by
  intro hd
  have := hd.conserved b
  rw [num_bufs_recv_loop, if_pos hb] at this
  omega

/-! ## The laws -/

/-- The callback handles the first response well only when it is answerable. -/
theorem dispatched_cons_answerable {d : Driver} {s : Apps} {rsp : Rsp} {rest : List Rsp}
    (h : Good s) (hc : ∀ b, rxCount s (rsp :: rest) b = if b < s.num_bufs then 1 else 0)
    (hd : Dispatched d s (rsp :: rest)) : Answerable s rsp := by
  have hbuf := hc rsp.buf
  rw [rxCount_cons, if_pos rfl] at hbuf
  have hlt : rsp.buf < s.num_bufs := by
    by_contra hge
    rw [if_neg hge] at hbuf
    omega
  rw [if_pos hlt] at hbuf
  rcases recv_single_cases d s rsp with ⟨p, hlen, hp, he⟩ | ⟨_, he, hno⟩
  · obtain ⟨hi, m, hm, rfl, _⟩ := h.live _ _ hp
    refine ⟨hlen, hi, m.id, m, hp, lookup_of_mem h.unique hm, ?_⟩
    by_contra hrx
    obtain ⟨c, hrx⟩ := Option.ne_none_iff_exists'.mp hrx
    have hg := h.recv d rsp
    rw [he] at hg
    -- a buffer that the message still holds is overwritten, and else the new one is lost
    have hlost : ∃ b < s.num_bufs,
        rxCount (s.setMsg m.id (attach d rsp.buf)) rest b = 0 := by
      by_cases hph : m.phase = .reposted
      · refine ⟨rsp.buf, hlt, ?_⟩
        have := rxCount_attach h hm d rest rsp.buf rsp.buf
        rw [if_neg (fun hx => hx.1 hph)] at this
        omega
      · have hholds : m.holdsRx c = 1 := by
          unfold Msg.holdsRx
          rw [if_pos ⟨hph, hrx⟩]
        have hle : m.holdsRx c ≤ weight (Msg.holdsRx c) s.msgs := le_weight hm
        have hcc := hc c
        rw [rxCount_cons] at hcc
        have hge : 1 ≤ rxCount s rest c := by
          unfold rxCount
          omega
        have hne : rsp.buf ≠ c := by
          intro he
          subst he
          omega
        rw [if_neg hne] at hcc
        have hclt : c < s.num_bufs := by
          by_contra hx
          rw [if_neg hx] at hcc
          omega
        rw [if_pos hclt] at hcc
        refine ⟨c, hclt, ?_⟩
        have := rxCount_attach h hm d rest rsp.buf c
        rw [if_neg (fun hx => hne hx.2)] at this
        omega
    obtain ⟨b, hb, hzero⟩ := hlost
    refine not_dispatched_of_lost hb ?_ hd
    rw [recv_loop_attached he]
    have := rxPlaces_recv_loop_le d hg rest b
    dsimp only at this ⊢
    omega
  · refine absurd hd (not_dispatched_of_lost hlt ?_)
    rw [recv_loop_rejected he hno]
    have hz : rxPlaces { s with rvq_used := rest } rsp.buf = rxCount s rest rsp.buf := rfl
    dsimp only
    omega

/-- An answerable response goes to its message, and the rest of the ring is handled from
there. -/
theorem dispatched_cons_iff {d : Driver} {s t : Apps} {rsp : Rsp} {rest : List Rsp} {p : Nat}
    (hr : rsp.msgid.toNat < FASTRPC_MSG_MAX) (he : recv_single d s rsp = (t, .attached p)) :
    Dispatched d s (rsp :: rest) ↔ Dispatched d t rest := by
  have hreads : ∀ i ∈ recv_reads rsp, i < FASTRPC_MSG_MAX := by
    unfold recv_reads
    split
    · simp
    · simpa using hr
  constructor
  · rintro ⟨h1, h2, h3⟩
    rw [recv_loop_attached he] at h1 h2 h3
    exact ⟨fun i hi => h1 i (List.mem_append_right _ hi), h2, h3⟩
  · rintro ⟨h1, h2, h3⟩
    refine ⟨?_, ?_, ?_⟩
    · intro i hi
      rw [recv_loop_attached he] at hi
      rcases List.mem_append.mp hi with hi | hi
      · exact hreads i hi
      · exact h1 i hi
    · rw [recv_loop_attached he]
      exact h2
    · rw [recv_loop_attached he]
      exact h3

/-- The responses behind an attached one are answerable after it exactly when they were so
before and name other entries. -/
theorem answerable_attached_iff {d : Driver} {s : Apps} {m : Msg} {rsp other : Rsp} (h : Good s)
    (hm : m ∈ s.msgs) (hid : m.msgid = rsp.msgid) :
    Answerable (s.setMsg m.id (attach d rsp.buf)) other ↔
      Answerable s other ∧ other.msgid ≠ rsp.msgid := by
  have hmsg : s.msg m.id = some m := lookup_of_mem h.unique hm
  have hself : (s.setMsg m.id (attach d rsp.buf)).msg m.id = some (attach d rsp.buf m) := by
    refine (lookup_update_self (keeps_attach d _).id).trans ?_
    rw [show lookup Msg.id s.msgs m.id = some m from hmsg]
    rfl
  have hother : ∀ q ≠ m.id, (s.setMsg m.id (attach d rsp.buf)).msg q = s.msg q := by
    intro q hq
    exact lookup_update_ne (keeps_attach d _).id hq
  have htable : s.msgtable rsp.msgid.toNat = some m.id := by
    rw [← hid]
    exact h.tabled m hm
  constructor
  · rintro ⟨h1, h2, q, x, hq, hx, hn⟩
    have hne : q ≠ m.id := by
      intro he
      rw [he, hself] at hx
      cases hx
      rw [attach_rxbuf] at hn
      cases hn
    refine ⟨⟨h1, h2, q, x, hq, by rw [← hother q hne]; exact hx, hn⟩, ?_⟩
    intro he
    have hq : s.msgtable other.msgid.toNat = some q := hq
    rw [he, htable] at hq
    exact hne (Option.some.inj hq).symm
  · rintro ⟨⟨h1, h2, q, x, hq, hx, hn⟩, hne⟩
    refine ⟨h1, h2, q, x, hq, ?_, hn⟩
    have hqm : q ≠ m.id := by
      intro he
      obtain ⟨_, y, hy, hyq, hyi⟩ := h.live _ _ hq
      have := h.unique.eq hy hm (hyq.trans he)
      subst this
      rw [hid] at hyi
      exact hne (BitVec.eq_of_toNat_eq hyi.symm)
    rw [hother q hqm]
    exact hx

/-- The callback handles a used ring well exactly when all of its responses are answerable
and name different entries. -/
theorem dispatched_iff {d : Driver} {s : Apps} {l : List Rsp} (h : Good s)
    (hc : ∀ b, rxCount s l b = if b < s.num_bufs then 1 else 0) :
    Dispatched d s l ↔ AllAnswerable s l := by
  induction l generalizing s with
  | nil =>
    refine ⟨fun _ => ⟨by simp, List.nodup_nil⟩, fun _ => ⟨by simp [recv_loop], ?_, rfl⟩⟩
    intro b
    exact hc b
  | cons rsp rest ih =>
    by_cases hans : Answerable s rsp
    · obtain ⟨hlen, hlt, p, m, hp, hmp, hrx⟩ := hans
      have hm : m ∈ s.msgs := mem_of_lookup hmp
      have hmid : m.id = p := key_of_lookup hmp
      subst hmid
      obtain ⟨_, y, hy, hym, hyi⟩ := h.live _ _ hp
      have hid : m.msgid = rsp.msgid := by
        rw [h.unique.eq hm hy hym.symm]
        exact BitVec.eq_of_toNat_eq hyi
      have he : recv_single d s rsp = (s.setMsg m.id (attach d rsp.buf), .attached m.id) := by
        unfold recv_single
        rw [if_neg (by simpa using hlen), hp]
      have hg := h.recv d rsp
      rw [he] at hg
      have hph : m.phase ≠ .reposted := by
        intro hr
        exact h.has_rsp m hm (by rw [hr]; rfl) hrx
      have hz : ∀ b, m.holdsRx b = 0 := by
        intro b
        unfold Msg.holdsRx
        rw [hrx, if_neg (by simp)]
      have hc' : ∀ b, rxCount (s.setMsg m.id (attach d rsp.buf)) rest b =
          if b < s.num_bufs then 1 else 0 := by
        intro b
        have h1 := rxCount_attach h hm d rest rsp.buf b
        have h2 := hc b
        rw [rxCount_cons] at h2
        rw [hz b, ← h2, Nat.add_zero] at *
        simpa [hph] using h1
      rw [dispatched_cons_iff hlt he, ih hg hc']
      unfold AllAnswerable
      rw [List.map_cons, List.nodup_cons]
      constructor
      · rintro ⟨h1, h2⟩
        refine ⟨?_, ?_, h2⟩
        · intro r hr
          rcases List.mem_cons.mp hr with rfl | hr
          · exact ⟨hlen, hlt, m.id, m, hp, hmp, hrx⟩
          · exact ((answerable_attached_iff h hm hid).mp (h1 r hr)).1
        · intro hmem
          obtain ⟨r, hr, hre⟩ := List.mem_map.mp hmem
          exact ((answerable_attached_iff h hm hid).mp (h1 r hr)).2 hre
      · rintro ⟨h1, h2, h3⟩
        refine ⟨?_, h3⟩
        intro r hr
        refine (answerable_attached_iff h hm hid).mpr ⟨h1 r (List.mem_cons_of_mem _ hr), ?_⟩
        intro hre
        exact h2 (List.mem_map.mpr ⟨r, hr, hre⟩)
    · constructor
      · intro hd
        exact absurd (dispatched_cons_answerable h hc hd) hans
      · rintro ⟨h1, _⟩
        exact absurd (h1 rsp List.mem_cons_self) hans

/-- In every state that a driver reaches with each rx buffer in one place, and for every used
ring, with any headers: the receive callback reads only entries of the table, leaves each rx
buffer in exactly one place and drains the ring, exactly when each response has the length
it says and names a live message without a response, and no two name the same. -/
theorem the_callback_dispatches_iff_all_answerable (d : Driver) {n size : Nat} {s : Apps}
    (h : Reachable (step d) (init n size) s) (hc : RxConserved s) :
    ((∀ i ∈ (recv_done d s).2, i < FASTRPC_MSG_MAX) ∧ RxConserved (recv_done d s).1 ∧
      (recv_done d s).1.rvq_used = []) ↔ AllAnswerable s s.rvq_used := by
  have hg : Good s := h.inv Good (step_good d) (good_init n size)
  rw [← dispatched_iff (d := d) hg hc]
  constructor
  · rintro ⟨h1, h2, h3⟩
    exact ⟨h1, h2, h3⟩
  · rintro ⟨h1, h2, h3⟩
    exact ⟨h1, h2, h3⟩

/-- One call waits, with these responses in the used ring. -/
def oneCallWaits (n : Nat) (avail : List Nat) (used : List Rsp) : Apps :=
  { init n 4096 with
    msgtable := put empty 0 (some 0)
    msgs := [⟨0, 0, .INVOKE, false, true, 0, some 0, none, 0, .fake, .waiting⟩]
    next := 1
    last_sbuf := 1
    svq_avail := [0]
    rvq_avail := avail
    rvq_used := used
    requests := [] }

/-- One answer to one waiting call is dispatched. -/
theorem one_answer_is_dispatched :
    Reachable (step .virtio) (init 1 4096) (oneCallWaits 1 [] [⟨0, 64, 64, 0, 0⟩]) ∧
      RxConserved (recv_done .virtio (oneCallWaits 1 [] [⟨0, 64, 64, 0, 0⟩])).1 ∧
      (recv_done .virtio (oneCallWaits 1 [] [⟨0, 64, 64, 0, 0⟩])).1.rvq_used = [] := by
  have hrun : Reachable (step .virtio) (init 1 4096) (oneCallWaits 1 [] [⟨0, 64, 64, 0, 0⟩]) :=
    ⟨[.alloc_insert 0 .INVOKE false 64, .alloc_take 0, .fill 0 none, .send 0 false,
      .answer ⟨0, 0⟩ 0 64 64], rfl⟩
  have hc : RxConserved (oneCallWaits 1 [] [⟨0, 64, 64, 0, 0⟩]) := by
    intro b
    rcases b with _ | b
    · rfl
    · rfl
  have hans : AllAnswerable (oneCallWaits 1 [] [⟨0, 64, 64, 0, 0⟩])
      (oneCallWaits 1 [] [⟨0, 64, 64, 0, 0⟩]).rvq_used := by
    refine ⟨?_, by simp [oneCallWaits]⟩
    intro rsp hr
    rw [List.mem_singleton.mp hr]
    exact ⟨rfl, by decide, 0, _, rfl, rfl, rfl⟩
  exact ⟨hrun, ((the_callback_dispatches_iff_all_answerable .virtio hrun hc).mpr hans).2⟩

/-- A response with a wrong length, and the answer to the waiting call behind it: the callback
loses the buffer of the first and does not look at the second. -/
theorem a_rejected_response_loses_its_buffer :
    Reachable (step .virtio) (init 2 4096)
        (oneCallWaits 2 [] [⟨0, 64, 65, 0, 0⟩, ⟨1, 64, 64, 0, 0⟩]) ∧
      RxConserved (oneCallWaits 2 [] [⟨0, 64, 65, 0, 0⟩, ⟨1, 64, 64, 0, 0⟩]) ∧
      rxPlaces (recv_done .virtio
        (oneCallWaits 2 [] [⟨0, 64, 65, 0, 0⟩, ⟨1, 64, 64, 0, 0⟩])).1 0 = 0 ∧
      (recv_done .virtio
        (oneCallWaits 2 [] [⟨0, 64, 65, 0, 0⟩, ⟨1, 64, 64, 0, 0⟩])).1.rvq_used =
          [⟨1, 64, 64, 0, 0⟩] := by
  refine ⟨⟨[.alloc_insert 0 .INVOKE false 64, .alloc_take 0, .fill 0 none, .send 0 false,
    .forge ⟨0, 64, 65, 0, 0⟩, .answer ⟨0, 0⟩ 1 64 64], rfl⟩, ?_, by decide, by decide⟩
  intro b
  rcases b with _ | _ | b
  · rfl
  · rfl
  · rfl

end virtual_fastrpc.transport
