-- Which message a response of the backend reaches. A response carries only
-- the number of an entry of the message table, so it must arrive before the
-- entry goes to another message.
import PlatformKernel.Transport

namespace virtual_fastrpc.transport

open keyed slots step_runs

/-! ## The requests under way -/

def Rsp.request (rsp : Rsp) : Request := ⟨rsp.answers, rsp.msgid⟩

/-- The requests that the backend has still to answer, and those whose answers the driver
has still to look at. -/
def flights (s : Apps) : List Request :=
  s.requests ++ (s.rvq_used ++ s.in_hand.toList).map Rsp.request

/-- The phases of a message that is sent and not yet on its way out. -/
def Phase.sent : Phase → Bool
  | .waiting | .parked | .saved | .lost => true
  | _ => false

/-- The phases of a message that is not sent yet. -/
def Phase.unsent : Phase → Bool
  | .inserted | .taken | .filled => true
  | _ => false

/-- Each request under way belongs to a live message that has no response yet, and no two of
them to the same. -/
structure Answers (s : Apps) : Prop where
  good : Good s
  flight : ∀ r ∈ flights s, ∃ m ∈ s.msgs, m.id = r.id ∧ m.msgid = r.msgid ∧ m.rxbuf = none ∧
    m.phase.sent = true
  once : ((flights s).map Request.id).Nodup
  woken : ∀ m ∈ s.msgs, m.work ≠ 0 ∨ m.asyncn = .queued → m.rxbuf ≠ none
  early : ∀ m ∈ s.msgs, m.phase.unsent = true → m.rxbuf = none

theorem answers_init (n size : Nat) : Answers (init n size) where
  good := good_init n size
  flight := by intro r hr; cases hr
  once := List.nodup_nil
  woken := by intro m hm; cases hm
  early := by intro m hm; cases hm

/-! ## The condition -/

/-- The backend answers only what it was sent: it fills no buffer with anything else. -/
def Honest : Act → Prop
  | .forge _ => False
  | _ => True

/-- The close of a session frees a message only after its answer was attached to it. -/
def ClosesAnswered (s : Apps) : Act → Prop
  | .dtor p => ∀ m ∈ s.msgs, m.id = p → m.rxbuf ≠ none
  | _ => True

def AnswersCalm (s : Apps) (a : Act) : Prop := Honest a ∧ ClosesAnswered s a

/-! ## What each step keeps -/

/-- A change of one message: either no request of it is under way, or it is still sent and
without a response. -/
theorem Answers.setMsg {s : Apps} (h : Answers s) {m : Msg} (hm : m ∈ s.msgs) {f : Msg → Msg}
    (hf : Msg.Keeps f) (hr : (f m).phase.hasRsp = true → (f m).rxbuf ≠ none)
    (hfl : (∀ r ∈ flights s, r.id ≠ m.id) ∨ ((f m).rxbuf = none ∧ (f m).phase.sent = true))
    (hw : (f m).work ≠ 0 ∨ (f m).asyncn = .queued → (f m).rxbuf ≠ none)
    (he : (f m).phase.unsent = true → (f m).rxbuf = none) : Answers (s.setMsg m.id f) := by
  refine ⟨h.good.setMsg hm hf hr, ?_, h.once, ?_, ?_⟩
  · intro r hrs
    obtain ⟨x, hx, hxr, hxm, hxn, hxs⟩ := h.flight r hrs
    by_cases hxe : x.id = m.id
    · have := h.good.unique.eq hx hm hxe
      subst this
      rcases hfl with hfl | ⟨h1, h2⟩
      · exact absurd hxr.symm (hfl r hrs)
      · refine ⟨f x, mem_update.mpr (Or.inr ⟨x, hx, rfl, rfl⟩), ?_, ?_, h1, h2⟩
        · rw [hf.id]; exact hxr
        · rw [hf.msgid]; exact hxm
    · exact ⟨x, mem_update.mpr (Or.inl ⟨hx, hxe⟩), hxr, hxm, hxn, hxs⟩
  · exact forall_setMsg h.good.unique hm (fun x hx _ => h.woken x hx) hw
  · exact forall_setMsg h.good.unique hm (fun x hx _ => h.early x hx) he

/-- The invariant does not depend on where the requests under way are. -/
theorem Answers.queues {s t : Apps} (h : Answers s) (h1 : t.msgs = s.msgs)
    (h2 : t.next = s.next) (h3 : t.msgtable = s.msgtable) (h4 : (flights t).Perm (flights s)) :
    Answers t := by
  refine ⟨h.good.queues h1 h2 h3, ?_, ?_, ?_, ?_⟩
  · intro r hr
    rw [h1]
    exact h.flight r (h4.subset hr)
  · exact (h4.map Request.id).nodup_iff.mpr h.once
  · rw [h1]; exact h.woken
  · rw [h1]; exact h.early

/-- No request of a message is under way when it has a response, or is not sent, or is on its
way out. -/
theorem Answers.no_flight {s : Apps} (h : Answers s) {m : Msg} (hm : m ∈ s.msgs)
    (hn : m.rxbuf ≠ none ∨ m.phase.sent = false) : ∀ r ∈ flights s, r.id ≠ m.id := by
  intro r hr he
  obtain ⟨x, hx, hxr, _, hxn, hxs⟩ := h.flight r hr
  have := h.good.unique.eq hx hm (hxr.trans he)
  subst this
  rcases hn with hn | hn
  · exact hn hxn
  · rw [hxs] at hn
    cases hn

theorem Answers.free {s : Apps} (h : Answers s) {m : Msg} (hm : m ∈ s.msgs)
    (hp : m.phase.sent = false) : Answers (virt_free_msg s m) := by
  have hno := h.no_flight hm (Or.inr hp)
  refine ⟨h.good.free hm, ?_, h.once, ?_, ?_⟩
  · intro r hr
    obtain ⟨x, hx, hxr, hrest⟩ := h.flight r hr
    refine ⟨x, mem_remove.mpr ⟨hx, ?_⟩, hxr, hrest⟩
    rw [hxr]
    exact hno r hr
  · intro x hx
    exact h.woken x (mem_remove.mp hx).1
  · intro x hx
    exact h.early x (mem_remove.mp hx).1

theorem Answers.insert {s : Apps} (h : Answers s) (vfl : Nat) (cmd : Cmd) (a : Bool)
    (size : Nat) : Answers (virt_alloc_msg_insert s vfl cmd a size) := by
  have hg := h.good.insert vfl cmd a size
  unfold virt_alloc_msg_insert at hg ⊢
  split
  · exact h
  · rename_i hsize
    rw [if_neg hsize] at hg
    split
    · rename_i i hi
      rw [hi] at hg
      refine ⟨hg, ?_, h.once, ?_, ?_⟩
      · intro r hr
        obtain ⟨x, hx, hrest⟩ := h.flight r hr
        exact ⟨x, List.mem_cons_of_mem _ hx, hrest⟩
      · intro m hm hw
        rcases List.mem_cons.mp hm with rfl | hm
        · rcases hw with hw | hw
          · exact absurd rfl hw
          · cases hw
        · exact h.woken m hm hw
      · intro m hm he
        rcases List.mem_cons.mp hm with rfl | hm
        · rfl
        · exact h.early m hm he
    · exact h

/-- A message that is on its way to its buffer, or to be sent. -/
theorem Answers.advance {s : Apps} (h : Answers s) {m : Msg} (hm : m ∈ s.msgs)
    {f : Msg → Msg} (hf : Msg.Keeps f) (hp : m.phase.unsent = true)
    (hr : (f m).phase.hasRsp = false) (hx : (f m).rxbuf = m.rxbuf) (hw : (f m).work = m.work)
    (ha : (f m).asyncn = m.asyncn) : Answers (s.setMsg m.id f) := by
  have hsent : m.phase.sent = false := by
    revert hp
    cases m.phase <;> simp [Phase.unsent, Phase.sent]
  have hnone := h.early m hm hp
  refine h.setMsg hm hf ?_ (Or.inl (h.no_flight hm (Or.inr hsent))) ?_ ?_
  · intro h1
    rw [hr] at h1
    cases h1
  · rw [hx, hw, ha]
    exact h.woken m hm
  · intro _
    rw [hx]
    exact hnone

/-- A message goes to its end when no request of it is under way. -/
theorem Answers.close {s : Apps} (h : Answers s) {m : Msg} (hm : m ∈ s.msgs) {f : Msg → Msg}
    (hf : Msg.Keeps f) (hn : m.rxbuf ≠ none ∨ m.phase.sent = false)
    (hr : (f m).phase.hasRsp = true → m.rxbuf ≠ none) (hx : (f m).rxbuf = m.rxbuf)
    (hu : (f m).phase.unsent = false)
    (hw : (f m).work ≠ 0 → m.work ≠ 0) (ha : (f m).asyncn = .queued → m.asyncn = .queued) :
    Answers (s.setMsg m.id f) := by
  refine h.setMsg hm hf ?_ (Or.inl (h.no_flight hm hn)) ?_ ?_
  · rw [hx]
    exact hr
  · rw [hx]
    rintro (h1 | h1)
    · exact h.woken m hm (Or.inl (hw h1))
    · exact h.woken m hm (Or.inr (ha h1))
  · intro h1
    rw [hu] at h1
    cases h1

theorem Answers.take {s : Apps} (h : Answers s) {m : Msg} (hm : m ∈ s.msgs)
    (hp : m.phase = .inserted) : Answers (virt_alloc_msg_take s m) := by
  have hset : ∀ b, Answers (s.setMsg m.id (.take b)) := by
    intro b
    exact h.advance hm (keeps_take b) (by rw [hp]; rfl) rfl rfl rfl rfl
  rcases alloc_take_cases s m with ⟨_, he⟩ | ⟨b, bs, _, _, he⟩ | he
  · rw [he]
    exact (hset _).queues rfl rfl rfl (List.Perm.refl _)
  · rw [he]
    exact (hset b).queues rfl rfl rfl (List.Perm.refl _)
  · rw [he]
    exact h.free hm (by rw [hp]; rfl)

theorem Answers.send {s : Apps} (h : Answers s) {m : Msg} (hm : m ∈ s.msgs)
    (hp : m.phase = .filled) : Answers (vfastrpc_txbuf_send s m false) := by
  have hnone : m.rxbuf = none := h.early m hm (by rw [hp]; rfl)
  have hno := h.no_flight hm (Or.inr (by rw [hp]; rfl))
  have hph : ∀ b : Bool, ((if b then Phase.parked else .waiting).sent = true) ∧
      (if b then Phase.parked else .waiting).hasRsp = false ∧
      (if b then Phase.parked else .waiting).unsent = false := by decide
  obtain ⟨h1, h2, h3⟩ := hph m.isasyncjob
  have hset : Answers (s.setMsg m.id (.goto (if m.isasyncjob then .parked else .waiting))) := by
    refine h.close hm (keeps_goto _) (Or.inr (by rw [hp]; rfl)) ?_ rfl h3 id id
    intro hr
    rw [show ((m.goto (if m.isasyncjob then .parked else .waiting)).phase.hasRsp = false) from h2]
      at hr
    cases hr
  have hfl : (flights (vfastrpc_txbuf_send s m false)).Perm
      (⟨m.id, m.msgid⟩ :: flights s) := by
    unfold flights vfastrpc_txbuf_send
    simp only [Bool.false_eq_true, if_false, List.append_assoc, List.singleton_append]
    exact List.perm_middle
  refine ⟨hset.good.queues rfl rfl rfl, ?_, ?_, hset.woken, hset.early⟩
  · intro r hr
    rcases List.mem_cons.mp (hfl.subset hr) with rfl | hr
    · exact ⟨m.goto (if m.isasyncjob then .parked else .waiting),
        mem_update.mpr (Or.inr ⟨m, hm, rfl, rfl⟩), rfl, rfl, hnone, h1⟩
    · exact hset.flight r hr
  · rw [(hfl.map Request.id).nodup_iff, List.map_cons, List.nodup_cons]
    refine ⟨?_, h.once⟩
    intro hmem
    obtain ⟨r, hr, he⟩ := List.mem_map.mp hmem
    exact hno r hr he

/-- The response that the callback looks at answers the message it is attached to. -/
theorem Answers.attached {s : Apps} (h : Answers s) {d : Driver} {rsp : Rsp} {p : Nat}
    (hh : s.in_hand = some rsp) (ha : (recv_single d s rsp).2 = .attached p) :
    ∃ m ∈ s.msgs, m.id = p ∧ rsp.answers = p ∧ m.msgid = rsp.msgid ∧ m.rxbuf = none ∧
      m.phase.sent = true := by
  have hin : rsp.request ∈ flights s := by
    unfold flights
    rw [hh]
    exact List.mem_append_right _ (List.mem_map_of_mem (List.mem_append_right _ (by simp)))
  obtain ⟨m, hm, hmr, hmm, hmn, hms⟩ := h.flight _ hin
  have hmm : m.msgid = rsp.msgid := hmm
  have hentry := h.good.tabled m hm
  rw [hmm] at hentry
  rcases recv_single_cases d s rsp with ⟨q, _, hq, he⟩ | ⟨_, _, hno⟩
  · rw [he] at ha
    cases ha
    rw [hentry] at hq
    have hid : m.id = p := Option.some.inj hq
    exact ⟨m, hm, hid, hmr.symm.trans hid, hmm, hmn, hms⟩
  · exact absurd ha (hno p)

theorem Answers.single {s : Apps} (h : Answers s) {d : Driver} {rsp : Rsp}
    (hh : s.in_hand = some rsp) :
    Answers { (recv_single d s rsp).1 with in_hand := none } := by
  have hfl : (flights s).Perm (rsp.request :: flights { s with in_hand := none }) := by
    unfold flights
    rw [hh]
    simp only [List.map_append, Option.toList_some, List.map_cons, List.map_nil,
      Option.toList_none, List.append_nil]
    rw [← List.append_assoc]
    exact List.perm_append_singleton _ _
  have honce : ((rsp.request :: flights { s with in_hand := none }).map Request.id).Nodup :=
    (hfl.map Request.id).nodup_iff.mp h.once
  have hdrop : Answers { s with in_hand := none } := by
    refine ⟨h.good.queues rfl rfl rfl, ?_, (List.nodup_cons.mp honce).2, h.woken, h.early⟩
    intro r hr
    exact h.flight r (hfl.symm.subset (List.mem_cons_of_mem _ hr))
  rcases recv_single_cases d s rsp with ⟨p, _, _, he⟩ | ⟨_, he, _⟩
  · obtain ⟨m, hm, rfl, hans, _, _, hms⟩ := h.attached (d := d) hh (by rw [he])
    rw [he]
    have hunsent : m.phase.unsent = false := by
      revert hms
      cases m.phase <;> simp [Phase.unsent, Phase.sent]
    have hset : Answers (({ s with in_hand := none } : Apps).setMsg m.id (attach d rsp.buf)) := by
      refine hdrop.setMsg hm (keeps_attach d _) ?_ (Or.inl ?_) ?_ ?_
      · intro _
        rw [attach_rxbuf]
        exact Option.some_ne_none _
      · intro r hr he
        refine (List.nodup_cons.mp honce).1 ?_
        refine List.mem_map.mpr ⟨r, hr, ?_⟩
        exact he.trans hans.symm
      · intro _
        rw [attach_rxbuf]
        exact Option.some_ne_none _
      · rw [attach_phase, hunsent]
        intro h1
        cases h1
    exact hset
  · rw [he]
    exact hdrop

/-- A sent message that stays sent. -/
theorem Answers.stay {s : Apps} (h : Answers s) {m : Msg} (hm : m ∈ s.msgs) {ph : Phase}
    (hs : ph.sent = true) : Answers (s.setMsg m.id (.goto ph)) := by
  have hph : ph.hasRsp = false ∧ ph.unsent = false := by
    revert hs
    cases ph <;> simp [Phase.sent, Phase.hasRsp, Phase.unsent]
  refine h.setMsg hm (keeps_goto ph) ?_ ?_ (h.woken m hm) ?_
  · intro h1
    rw [show (m.goto ph).phase.hasRsp = false from hph.1] at h1
    cases h1
  · by_cases hr : m.rxbuf = none
    · exact Or.inr ⟨hr, hs⟩
    · exact Or.inl (h.no_flight hm (Or.inl hr))
  · intro h1
    rw [show (m.goto ph).phase.unsent = false from hph.2] at h1
    cases h1

theorem flights_answer {s : Apps} {r : Request} {b : Nat} {len hdr_len : BitVec 32}
    (hr : r ∈ s.requests) :
    (flights { s with
      requests := s.requests.erase r
      rvq_avail := s.rvq_avail.erase b
      rvq_used := s.rvq_used ++ [⟨b, len, hdr_len, r.msgid, r.id⟩] }).Perm (flights s) := by
  unfold flights
  simp only [List.map_append, List.map_cons, List.append_assoc, List.singleton_append]
  have h1 : (s.requests.erase r ++ (s.rvq_used.map Rsp.request ++
      r :: s.in_hand.toList.map Rsp.request)).Perm
      (r :: (s.requests.erase r ++ (s.rvq_used.map Rsp.request ++
        s.in_hand.toList.map Rsp.request))) := by
    rw [← List.append_assoc, ← List.append_assoc]
    exact List.perm_middle
  exact h1.trans ((List.perm_cons_erase hr).symm.append_right _)

/-- A step that meets the condition keeps the invariant. -/
theorem step_answers (d : Driver) (s : Apps) (a : Act) (t : Apps) (h : Answers s)
    (hc : AnswersCalm s a) (ht : step d s a = some t) : Answers t := by
  cases a with
  | alloc_insert vfl cmd isasyncjob size =>
    simp only [step] at ht
    split at ht <;> cases ht
    exact h.insert vfl cmd isasyncjob size
  | alloc_take p =>
    obtain ⟨m, hm, _, hp, rfl⟩ := onMsg_some ht
    exact h.take hm (by simpa using hp)
  | fill p exit =>
    obtain ⟨m, hm, _, hp, rfl⟩ := onMsg_some ht
    have hph : m.phase = .taken := by
      rw [Bool.and_eq_true] at hp
      simpa using hp.1
    cases exit with
    | none => exact h.advance hm keeps_fill (by rw [hph]; rfl) rfl rfl rfl rfl
    | some e =>
      exact h.close hm (keeps_goto _) (Or.inr (by rw [hph]; rfl)) closing_hasRsp rfl rfl id id
  | send p err =>
    obtain ⟨m, hm, _, hp, rfl⟩ := onMsg_some ht
    have hp : m.phase = .filled := by simpa using hp
    cases err with
    | false => exact h.send hm hp
    | true =>
      refine h.close hm (keeps_goto _) (Or.inr (by rw [hp]; rfl)) ?_ rfl rfl id id
      intro hr
      have := closing_hasRsp hr
      split at this
      · exact this
      · exact absurd rfl this
  | interrupt p nomem =>
    obtain ⟨m, hm, _, _, rfl⟩ := onMsg_some ht
    apply h.stay hm
    split <;> rfl
  | resume p =>
    obtain ⟨m, hm, _, _, rfl⟩ := onMsg_some ht
    exact h.stay hm rfl
  | wake p =>
    obtain ⟨m, hm, _, hp, rfl⟩ := onMsg_some ht
    have hwork : m.work ≠ 0 := by
      rw [Bool.and_eq_true] at hp
      simpa using hp.2
    have hrx := h.woken m hm (Or.inl hwork)
    exact h.close hm keeps_wake (Or.inl hrx) (fun _ => hrx) rfl rfl (fun _ => hwork) id
  | collect p =>
    obtain ⟨m, hm, _, hp, rfl⟩ := onMsg_some ht
    have hq : m.asyncn = .queued := by
      simp only [Bool.and_eq_true, beq_iff_eq] at hp
      exact hp.1.2
    have hrx := h.woken m hm (Or.inr hq)
    exact h.close hm keeps_collect (Or.inl hrx) (fun _ => hrx) rfl rfl id (fun _ => hq)
  | repost p err =>
    obtain ⟨m, hm, _, b, hp, rfl⟩ := repost_some ht
    have hrx := h.good.has_rsp m hm (by rw [hp]; rfl)
    have hset : Answers (s.setMsg m.id (.goto .reposted)) :=
      h.close hm (keeps_goto _) (Or.inl hrx) (fun _ => hrx) rfl rfl id id
    exact hset.queues rfl rfl rfl (List.Perm.refl _)
  | free p =>
    obtain ⟨m, hm, _, hp, rfl⟩ := onMsg_some ht
    apply h.free hm
    simp only [Bool.or_eq_true, beq_iff_eq] at hp
    rcases hp with hp | hp <;> rw [hp] <;> rfl
  | file_free vfl =>
    simp only [step] at ht
    split at ht <;> cases ht
    exact h.queues rfl rfl rfl (List.Perm.refl _)
  | dtor p =>
    obtain ⟨m, hm, hid, _, rfl⟩ := onMsg_some ht
    have hrx : m.rxbuf ≠ none := hc.2 m hm hid
    exact h.close hm (keeps_goto _) (Or.inl hrx) closing_hasRsp rfl rfl id id
  | rx_pop =>
    simp only [step] at ht
    split at ht
    · rename_i rsp rest hh hu
      cases ht
      refine h.queues rfl rfl rfl ?_
      unfold flights
      rw [hh, hu]
      simp only [Option.toList_some, Option.toList_none, List.append_nil]
      exact (List.perm_append_singleton rsp rest).map Rsp.request |>.append_left _
    · cases ht
  | rx_single =>
    obtain ⟨rsp, hh, rfl⟩ := rx_single_some ht
    exact h.single hh
  | tx_used b =>
    simp only [step] at ht
    split at ht <;> cases ht
    exact h.queues rfl rfl rfl (List.Perm.refl _)
  | answer r b len hdr_len =>
    simp only [step] at ht
    split at ht
    · rename_i hr
      cases ht
      exact h.queues rfl rfl rfl (flights_answer hr.1)
    · cases ht
  | forge rsp => exact hc.1.elim

/-! ## The laws -/

/-- In every run with an honest backend in which the close of a session frees a message only
after its answer was attached: a response that recv_single attaches to a message is the
answer to that message. -/
theorem an_attached_response_answers_its_message {n size : Nat} {s : Apps} {rsp : Rsp} {p : Nat}
    (h : ReachableUnder (step .virtio) AnswersCalm (init n size) s)
    (hh : s.in_hand = some rsp) (ha : (recv_single .virtio s rsp).2 = .attached p) :
    rsp.answers = p ∧ ∃ m, s.msg p = some m ∧ m.msgid = rsp.msgid := by
  have hinv := h.inv Answers (step_answers .virtio) (answers_init n size)
  obtain ⟨m, hm, rfl, hans, hid, _⟩ := hinv.attached hh ha
  exact ⟨hans, m, lookup_of_mem hinv.good.unique hm, hid⟩

/-- A call whose answer arrives while it waits. -/
theorem a_waiting_call_gets_its_answer :
    ∃ s rsp, run (step .virtio) (init 4 4096)
        [.alloc_insert 0 .INVOKE false 64, .alloc_take 0, .fill 0 none, .send 0 false,
          .answer ⟨0, 0⟩ 0 64 64, .rx_pop] = some s ∧ s.in_hand = some rsp ∧
      (recv_single .virtio s rsp).2 = .attached 0 ∧ rsp.answers = 0 := by
  have hrun : run (step .virtio) (init 4 4096)
      [.alloc_insert 0 .INVOKE false 64, .alloc_take 0, .fill 0 none, .send 0 false,
        .answer ⟨0, 0⟩ 0 64 64, .rx_pop] = some _ := rfl
  refine ⟨_, _, hrun, rfl, rfl, ?_⟩
  refine (an_attached_response_answers_its_message ⟨_, ?_, hrun⟩ rfl rfl).1
  apply meets_of_forall
  simp [AnswersCalm, Honest, ClosesAnswered]

/-- A signal interrupts an invoke, and its session is closed: the close exchanges its own
message with the backend and frees the interrupted message. The next session gets the entry,
and the late answer to the freed message 0 is attached to its message 2. -/
theorem a_late_answer_reaches_another_message :
    ∃ as s rsp, (∀ a ∈ as, Honest a) ∧ run (step .virtio) (init 4 4096) as = some s ∧
      s.in_hand = some rsp ∧ rsp.answers = 0 ∧ (recv_single .virtio s rsp).2 = .attached 2 := by
  refine ⟨[.alloc_insert 0 .INVOKE false 64, .alloc_take 0, .fill 0 none, .send 0 false,
    .interrupt 0 false, .file_free 0,
    .alloc_insert 0 .CLOSE false 26, .alloc_take 1, .fill 1 none, .send 1 false,
    .answer ⟨1, 1⟩ 0 26 26, .rx_pop, .rx_single, .wake 1, .repost 1 false, .free 1,
    .dtor 0, .free 0,
    .alloc_insert 1 .INVOKE false 64, .alloc_take 2, .fill 2 none, .send 2 false,
    .answer ⟨0, 0⟩ 1 64 64, .rx_pop], _, _, ?_, rfl, rfl, rfl, rfl⟩
  simp [Honest]

end virtual_fastrpc.transport
