-- Whether the message of a virtio invoke fits its tx buffer: the pieces that
-- get_args writes and steps over, in their order, and when all of them lie in
-- the first buf_size bytes.
import PlatformKernel.VirtioRoundTrip

namespace virtual_fastrpc.virtio_message

open bytes buffers map_table
open virtio_marshal (SIZE_OF_MAPPING sizeof_virt_invoke_msg sizeof_virt_fastrpc_buf)

/-! ## The pieces of the message -/

/-- A piece of the message, from one value of `payload` to the next. get_args writes all of it, or
steps over the room of an out-buffer. -/
structure Span where
  place : Nat
  size : Nat
  stored : Bool
  deriving DecidableEq, Repr

/-- Some turns: their pieces, and `payload` after them when none of them has failed. -/
abbrev Turns := List Span × Option Nat

def Turns.andThen (r : Turns) (k : Nat → Turns) : Turns :=
  match r.2 with
  | none => r
  | some payload => (r.1 ++ (k payload).1, (k payload).2)

/-- One turn over a piece of `size` bytes. `ok` is false when the copy of the bytes fails: the
copy has filled the piece by then. -/
def piece (payload size : Nat) (stored ok : Bool) : Turns :=
  ([⟨payload, size, stored⟩], if ok then some ((payload + size) % 2 ^ 64) else none)

/-- The bytes of the buffer are copied from the user. -/
def copied (c : Call) (i : Nat) (a : Arg) : Bool := i < c.inbufs && a.len ≠ 0

/-- The copy of the buffer, if there is one, succeeds. -/
def copy_ok? (c : Call) (i : Nat) (a : Arg) : Bool :=
  !copied c i a || (copy_from_user c.user a.pv.toNat a.len.toNat).isSome

/-- A turn of the loop over the buffers. -/
def buf_turn (c : Call) (i : Nat) (a : Arg) (d : Option Buf) (payload : Nat) : Turns :=
  match a.map with
  | some m =>
    match map_offset a m with
    | .error _ => ([], none)
    | .ok _ => piece payload (get_size_of_mapping m) true true
  | none =>
    match d with
    | some b => piece payload (SIZE_OF_MAPPING (c.sgt b).length) true (copy_ok? c i a)
    | none => piece payload a.len.toNat (copied c i a) (copy_ok? c i a)

def buf_turns (c : Call) : Nat → List (Arg × Option Buf) → Nat → Turns
  | _, [], payload => ([], some payload)
  | i, (a, d) :: bufs, payload => (buf_turn c i a d payload).andThen (buf_turns c (i + 1) bufs)

/-- A turn of the loop over the dma handles. -/
def handle_turn (h : Handle) (payload : Nat) : Turns :=
  match h.map with
  | some m => piece payload (SIZE_OF_MAPPING m.sgl.length) true true
  | none => ([], some payload)

def handle_turns : List Handle → Nat → Turns
  | [], payload => ([], some payload)
  | h :: hs, payload => (handle_turn h payload).andThen (handle_turns hs)

/-- The pieces of get_args, up to where it ends. Without a message there are none. -/
def spans (c : Call) (p : Pool) : List Span :=
  match get_plan c p with
  | .error _ => []
  | .ok plan =>
    match virt_alloc_msg c plan.size with
    | none => []
    | some _ =>
      ⟨0, metalen c, true⟩ ::
        ((buf_turns c 0 (c.args.zip plan.internal) (metalen c)).andThen (handle_turns c.handles)).1

/-- get_args writes inside the tx buffer of `buf_size` bytes, and its cursor does not pass the end
of it. -/
def InBounds (c : Call) (p : Pool) : Prop :=
  ∀ s ∈ spans c p, s.place + s.size ≤ c.buf_size

/-! ## The pieces are those of get_args -/

/-- What is written lies in the memory of the tx buffer. -/
def Room (c : Call) (l : List Span) : Prop :=
  ∀ s ∈ l, s.stored = true → s.place + s.size ≤ c.tx_size

/-- The turns are those of a part of get_args: it fails with `overrun` when one of them writes
behind the tx buffer, and else it ends where the turns end. -/
structure Follows (c : Call) (x : Except Exit Writer) (r : Turns) : Prop where
  overrun : x = .error .overrun ↔ ¬ Room c r.1
  ok : ∀ w, x = .ok w → r.2 = some w.payload
  fails : ∀ e, x = .error e → e ≠ .overrun → r.2 = none

section follows

variable {c : Call} {txbuf i : Nat} {a : Arg} {d : Option Buf} {w : Writer}

theorem room_append {l k : List Span} : Room c (l ++ k) ↔ Room c l ∧ Room c k := by
  simp [Room, or_imp, forall_and]

theorem room_nil : Room c [] := by simp [Room]

theorem follows_ok {r : Turns} (hroom : Room c r.1) (hend : r.2 = some w.payload) :
    Follows c (.ok w) r :=
  ⟨⟨nofun, fun h => absurd hroom h⟩, fun _ h => by cases h; exact hend, nofun⟩

theorem follows_error {r : Turns} {e : Exit} (he : e ≠ .overrun) (hroom : Room c r.1)
    (hend : r.2 = none) : Follows c (.error e) r := by
  refine ⟨⟨fun h => ?_, fun h => absurd hroom h⟩, nofun, fun _ _ _ => hend⟩
  cases h
  exact absurd rfl he

theorem follows_overrun {r : Turns} (h : ¬ Room c r.1) : Follows c (.error .overrun) r := by
  refine ⟨⟨fun _ => h, fun _ => rfl⟩, nofun, fun e he hne => ?_⟩
  cases he
  exact absurd rfl hne

/-- Two parts of get_args, one after the other. -/
theorem Follows.bind {x : Except Exit Writer} {f : Writer → Except Exit Writer} {r : Turns}
    {k : Nat → Turns} (h : Follows c x r) (hk : ∀ w, x = .ok w → Follows c (f w) (k w.payload)) :
    Follows c (x >>= f) (r.andThen k) := by
  rcases x with e | w
  · change Follows c (.error e) _
    by_cases he : e = .overrun
    · -- the piece behind the buffer is there, whatever comes after it
      subst he
      apply follows_overrun
      have hno := h.overrun.mp rfl
      unfold Turns.andThen
      split
      · exact hno
      · exact fun hroom => hno (room_append.mp hroom).1
    · have hend := h.fails e rfl he
      have hsame : r.andThen k = r := by simp [Turns.andThen, hend]
      rw [hsame]
      exact h
  · change Follows c (f w) _
    have hroom : Room c r.1 := by
      by_contra hno
      exact absurd (h.overrun.mpr hno) nofun
    have hand : r.andThen k = (r.1 ++ (k w.payload).1, (k w.payload).2) := by
      simp [Turns.andThen, h.ok w rfl]
    obtain ⟨hover, hok, hfails⟩ := hk w rfl
    rw [hand]
    exact ⟨by simp [room_append, hroom, hover], hok, hfails⟩

theorem mem_andThen {r : Turns} {k : Nat → Turns} {s : Span} (h : s ∈ r.1) :
    s ∈ (r.andThen k).1 := by
  unfold Turns.andThen
  split
  · exact h
  · exact List.mem_append_left _ h

theorem room_piece {payload size : Nat} {stored ok : Bool} :
    Room c (piece payload size stored ok).1 ↔ (stored = true → payload + size ≤ c.tx_size) := by
  simp [Room, piece]

/-- A mapping, and what is left of its turn. -/
theorem follows_mapping {m : VirtFastrpcMapping} {n : Nat} {ok : Bool}
    {f : Writer → Except Exit Writer} (hn : SIZE_OF_MAPPING m.sgl.length = n)
    (hok : ∀ w', w'.payload = w.payload → (if ok = true then
      ∃ w'', f w' = .ok w'' ∧ w''.payload = (w.payload + n) % 2 ^ 64
      else f w' = .error .copy_from_user)) :
    Follows c (w.mapping c m >>= f) (piece w.payload n true ok) := by
  unfold Writer.mapping
  rw [hn]
  split
  · rename_i hover
    exact follows_overrun (fun hroom => absurd (room_piece.mp hroom rfl) (by omega))
  · rename_i hfits
    have hroom : Room c (piece w.payload n true ok).1 := room_piece.mpr (fun _ => by omega)
    have := hok { w with mappings := w.mappings ++ [(w.payload, m)] } rfl
    simp only [bind, Except.bind]
    cases ok with
    | false =>
      simp only [Bool.false_eq_true, if_false] at this
      rw [this]
      exact follows_error nofun hroom rfl
    | true =>
      simp only [if_true] at this
      obtain ⟨w'', hw, hp⟩ := this
      rw [hw]
      exact follows_ok hroom (by simp [piece, hp])

/-- The copy of an in-buffer, or no copy, and the step to the next place. -/
theorem copy_then_next {w' : Writer} (entry : VirtFastrpcBuf) (dst n : Nat)
    (hp : w'.payload = w.payload) :
    let r : Except Exit Writer :=
      if copied c i a = true then w'.copy c a dst >>= fun w => pure (w.next entry n)
      else Except.ok w' >>= fun w => pure (w.next entry n)
    if copy_ok? c i a = true then ∃ w'', r = .ok w'' ∧ w''.payload = (w.payload + n) % 2 ^ 64
    else r = .error .copy_from_user := by
  unfold copy_ok?
  by_cases hc : copied c i a = true
  · rcases hu : copy_from_user c.user a.pv.toNat a.len.toNat with _ | bs
    · simp [hc, hu, Writer.copy, bind, Except.bind]
    · simp [hc, hu, Writer.copy, bind, Except.bind, pure, Except.pure, Writer.next, hp]
  · simp [hc, bind, Except.bind, pure, Except.pure, Writer.next, hp]

theorem write_buf_follows :
    Follows c (write_buf c txbuf i a d w) (buf_turn c i a d w.payload) := by
  unfold write_buf buf_turn
  rcases hm : a.map with _ | m
  · rcases d with _ | b
    · simp only
      by_cases hc : copied c i a = true
      · have hif : (decide (i < c.inbufs) && decide (a.len ≠ 0)) = true := hc
        simp only [hif, if_true]
        split
        · rename_i hover
          exact follows_overrun (fun hroom => absurd (room_piece.mp hroom hc) (by omega))
        · rename_i hfits
          have hroom : Room c (piece w.payload a.len.toNat (copied c i a) (copy_ok? c i a)).1 :=
            room_piece.mpr (fun _ => by omega)
          have := copy_then_next (c := c) (i := i) (a := a) (w := w) ⟨0, a.pv, a.len, 0, a.len⟩
            (txbuf + w.payload) a.len.toNat rfl
          simp only [hc, if_true] at this
          split at this
          · rename_i hok
            obtain ⟨w'', hw, hp⟩ := this
            rw [hw]
            exact follows_ok hroom (by simp [piece, hok, hp])
          · rename_i hok
            rw [this]
            exact follows_error nofun hroom (by simp [piece, hok])
      · have hif : (decide (i < c.inbufs) && decide (a.len ≠ 0)) = false := by
          exact Bool.eq_false_iff.mpr hc
        simp only [hif, Bool.false_eq_true, if_false]
        refine follows_ok (room_piece.mpr (fun h => absurd h hc)) ?_
        simp [piece, copy_ok?, hc, Writer.next]
    · simp only
      apply follows_mapping rfl
      intro w' hp
      exact copy_then_next (c := c) (i := i) (a := a) _ _ _ hp
  · simp only
    rcases ho : map_offset a m with e | offset
    · have he : e ≠ .overrun := by
        rintro rfl
        unfold map_offset at ho
        split at ho
        · cases ho
        · dsimp only at ho
          split at ho <;> cases ho
      exact follows_error he room_nil rfl
    · simp only [bind, Except.bind]
      apply follows_mapping (size_of_mapping m)
      intro w' hp
      simp only [if_true]
      exact ⟨_, rfl, by simp [Writer.next, hp]⟩

theorem write_loop_follows (bufs : List (Arg × Option Buf)) :
    Follows c (write_loop c txbuf i bufs w) (buf_turns c i bufs w.payload) := by
  induction bufs generalizing i w with
  | nil => exact follows_ok room_nil rfl
  | cons b bufs ih =>
    obtain ⟨a, d⟩ := b
    exact write_buf_follows.bind (fun w' _ => ih)

theorem write_handle_follows (h : Handle) :
    Follows c (write_handle c h w) (handle_turn h w.payload) := by
  unfold write_handle handle_turn
  rcases hm : h.map with _ | m
  · exact follows_ok room_nil rfl
  · simp only
    apply follows_mapping rfl
    intro w' hp
    simp only [if_true]
    exact ⟨_, rfl, by simp [hp]⟩

theorem write_handles_follows (hs : List Handle) :
    Follows c (write_handles c hs w) (handle_turns hs w.payload) := by
  induction hs generalizing w with
  | nil => exact follows_ok room_nil rfl
  | cons h hs ih => exact (write_handle_follows h).bind (fun w' _ => ih)

end follows

/-- get_args writes behind the memory of its tx buffer when one of the pieces that it writes ends
there, and only then. -/
theorem overrun_iff (c : Call) (p : Pool) :
    get_args c p = .error .overrun ↔ ¬ Room c (spans c p) := by
  unfold get_args spans
  rcases hplan : get_plan c p with e | plan
  · have he : e ≠ .overrun := by
      rintro rfl
      unfold get_plan at hplan
      dsimp only at hplan
      split at hplan
      · cases hplan
      split at hplan
      · cases hplan
      split at hplan <;> cases hplan
    simp [he, room_nil]
  rcases hmsg : virt_alloc_msg c plan.size with _ | txbuf
  · simp [hmsg, room_nil]
  simp only [hmsg]
  by_cases hmeta : c.tx_size < metalen c
  · simp only [hmeta, if_true, true_iff]
    intro hroom
    have := hroom _ List.mem_cons_self rfl
    dsimp only at this
    omega
  · simp only [hmeta, if_false]
    have hcons : ∀ l, Room c (⟨0, metalen c, true⟩ :: l) ↔ Room c l := by
      intro l
      refine ⟨fun h s hs => h s (List.mem_cons_of_mem _ hs), fun h s hs hst => ?_⟩
      rcases List.mem_cons.mp hs with rfl | hs
      · dsimp only
        omega
      · exact h s hs hst
    rw [hcons]
    have h : Follows c (write_loop c txbuf 0 (c.args.zip plan.internal)
        ⟨metalen c, [], [], [], []⟩ >>= write_handles c c.handles)
        ((buf_turns c 0 (c.args.zip plan.internal) (metalen c)).andThen (handle_turns c.handles)) :=
      (write_loop_follows _).bind (fun w _ => write_handles_follows c.handles)
    rw [← h.overrun]
    rcases write_loop c txbuf 0 (c.args.zip plan.internal) ⟨metalen c, [], [], [], []⟩ with e | w
    · simp [bind, Except.bind]
    · rcases hws : write_handles c c.handles w with e | w'
      · simp [bind, Except.bind, hws]
      · simp [bind, Except.bind, hws]

/-! ## The sizes of the pieces -/

/-- The pieces lie in the first `b` bytes, and the turns end `n` bytes further when none of them
fails. -/
structure Within (b payload n : Nat) (r : Turns) : Prop where
  inside : ∀ s ∈ r.1, s.place + s.size ≤ b
  ends : ∀ q, r.2 = some q → q = payload + n

section within

variable {c : Call} {i b payload n : Nat} {a : Arg} {d : Option Buf}

theorem within_piece {stored ok : Bool} (h : payload + n ≤ b) (hb : b < 2 ^ 64) :
    Within b payload n (piece payload n stored ok) := by
  refine ⟨by simpa [piece] using h, fun q hq => ?_⟩
  simp only [piece] at hq
  split at hq
  · cases hq
    exact Nat.mod_eq_of_lt (by omega)
  · cases hq

theorem Within.andThen {r : Turns} {k : Nat → Turns} {m : Nat} (h : Within b payload n r)
    (hk : Within b (payload + n) m (k (payload + n))) :
    Within b payload (n + m) (r.andThen k) := by
  unfold Turns.andThen
  split
  · rename_i hend
    exact ⟨h.inside, fun q hq => absurd (hend.symm.trans hq) nofun⟩
  · rename_i q hend
    rw [h.ends q hend]
    refine ⟨?_, fun q' hq' => by rw [hk.ends q' hq', Nat.add_assoc]⟩
    intro s hs
    rcases List.mem_append.mp hs with hs | hs
    · exact h.inside s hs
    · exact hk.inside s hs

theorem within_buf_turn (h : payload + plen c a d ≤ b) (hb : b < 2 ^ 64) :
    Within b payload (plen c a d) (buf_turn c i a d payload) := by
  unfold buf_turn
  rcases hm : a.map with _ | m
  · rcases d with _ | x
    · rw [plen_none hm] at h ⊢
      exact within_piece h hb
    · rw [plen_internal hm] at h ⊢
      exact within_piece h hb
  · rw [plen_some hm] at h ⊢
    simp only
    split
    · exact ⟨by simp, nofun⟩
    · exact within_piece h hb

theorem within_buf_turns (bufs : List (Arg × Option Buf)) (h : payload + lens c bufs ≤ b)
    (hb : b < 2 ^ 64) : Within b payload (lens c bufs) (buf_turns c i bufs payload) := by
  induction bufs generalizing i payload with
  | nil => exact ⟨by simp [buf_turns], by simp [buf_turns]⟩
  | cons x bufs ih =>
    obtain ⟨a, d⟩ := x
    rw [lens_cons] at h ⊢
    apply (within_buf_turn (by omega) hb).andThen
    exact ih (by omega)

theorem within_handle_turns (hs : List Handle) (h : payload + hlens hs ≤ b) (hb : b < 2 ^ 64) :
    Within b payload (hlens hs) (handle_turns hs payload) := by
  induction hs generalizing payload with
  | nil => exact ⟨by simp [handle_turns], by simp [handle_turns]⟩
  | cons x hs ih =>
    rw [hlens_cons] at h ⊢
    have hone : Within b payload ((x.map.map (fun m => SIZE_OF_MAPPING m.sgl.length)).getD 0)
        (handle_turn x payload) := by
      unfold handle_turn
      rcases hm : x.map with _ | m
      · exact ⟨by simp, by simp⟩
      · simp only [hm, Option.map_some, Option.getD_some] at h ⊢
        exact within_piece (by omega) hb
    exact hone.andThen (ih (by omega))

/-- No turn fails. When the pieces lie in the first `b` bytes the sizes add up to that. -/
structure Goes (b payload n : Nat) (r : Turns) : Prop where
  fits : payload ≤ b → (∀ s ∈ r.1, s.place + s.size ≤ b) → payload + n ≤ b
  ends : payload + n ≤ b → r.2 = some (payload + n)

theorem goes_piece {stored : Bool} (hb : b < 2 ^ 64) :
    Goes b payload n (piece payload n stored true) := by
  refine ⟨fun _ h => h _ List.mem_cons_self, fun h => ?_⟩
  simp only [piece, if_true, Option.some.injEq]
  exact Nat.mod_eq_of_lt (by omega)

theorem Goes.andThen {r : Turns} {k : Nat → Turns} {m : Nat} (h : Goes b payload n r)
    (hk : Goes b (payload + n) m (k (payload + n))) : Goes b payload (n + m) (r.andThen k) := by
  have hand (hfits : payload + n ≤ b) :
      r.andThen k = (r.1 ++ (k (payload + n)).1, (k (payload + n)).2) := by
    simp [Turns.andThen, h.ends hfits]
  constructor
  · intro hp hall
    -- the pieces of the first part are there in any case
    have hfirst : payload + n ≤ b := by
      apply h.fits hp
      exact fun s hs => hall s (mem_andThen hs)
    rw [hand hfirst] at hall
    have := hk.fits hfirst (fun s hs => hall s (List.mem_append_right _ hs))
    omega
  · intro hfits
    rw [hand (by omega), hk.ends (by omega)]
    simp [Nat.add_assoc]

/-- Each buffer has its bytes and its vma. -/
def Willing (c : Call) (as : List Arg) : Prop :=
  (∀ src n, (copy_from_user c.user src n).isSome = true) ∧
    ∀ a ∈ as, ∀ m, a.map = some m → ∃ offset, map_offset a m = .ok offset

theorem goes_buf_turn (hw : Willing c [a]) (hb : b < 2 ^ 64) :
    Goes b payload (plen c a d) (buf_turn c i a d payload) := by
  have hok : copy_ok? c i a = true := by simp [copy_ok?, hw.1]
  unfold buf_turn
  rcases hm : a.map with _ | m
  · rcases d with _ | x
    · rw [plen_none hm, hok]
      exact goes_piece hb
    · rw [plen_internal hm, hok]
      exact goes_piece hb
  · obtain ⟨offset, ho⟩ := hw.2 a (by simp) m hm
    rw [plen_some hm]
    simp only [ho]
    exact goes_piece hb

theorem goes_buf_turns (bufs : List (Arg × Option Buf)) (hw : Willing c (bufs.map Prod.fst))
    (hb : b < 2 ^ 64) : Goes b payload (lens c bufs) (buf_turns c i bufs payload) := by
  induction bufs generalizing i payload with
  | nil => exact ⟨fun h _ => by simpa using h, by simp [buf_turns]⟩
  | cons x bufs ih =>
    obtain ⟨a, d⟩ := x
    rw [lens_cons]
    refine (goes_buf_turn ⟨hw.1, fun a' ha => hw.2 a' ?_⟩ hb).andThen (ih ⟨hw.1, fun a' ha => ?_⟩)
    · rw [List.mem_singleton.mp ha]
      simp
    · exact hw.2 a' (List.mem_cons_of_mem _ ha)

theorem goes_handle_turns (hs : List Handle) (hb : b < 2 ^ 64) :
    Goes b payload (hlens hs) (handle_turns hs payload) := by
  induction hs generalizing payload with
  | nil => exact ⟨fun h _ => by simpa using h, by simp [handle_turns]⟩
  | cons x hs ih =>
    rw [hlens_cons]
    have hone : Goes b payload ((x.map.map (fun m => SIZE_OF_MAPPING m.sgl.length)).getD 0)
        (handle_turn x payload) := by
      unfold handle_turn
      rcases x.map with _ | m
      · exact ⟨fun h _ => by simpa using h, by simp⟩
      · exact goes_piece hb
    exact hone.andThen ih

end within

/-! ## When the message fits -/

/-- The internal buffers of the second size loop. -/
def internal_bufs (c : Call) (p : Pool) : Option (List (Option Buf)) :=
  (desc_loop c 0 c.args p ⟨0, 0⟩).map (fun r => r.2.map Desc.buf)

/-- The size of the message with all bytes in it, counted without a wrap. -/
def direct_size (c : Call) : Nat := total_size c (c.args.map (fun _ => none))

/-- No size that passes a check as a size_t, or as the int that virt_alloc_msg takes, is too large
in fact. -/
structure Counted (c : Call) (p : Pool) : Prop where
  direct : direct_size c % 2 ^ 64 ≤ c.buf_size → direct_size c ≤ c.buf_size
  internal : c.buf_size < direct_size c % 2 ^ 64 → ∀ bufs, internal_bufs c p = some bufs →
    total_size c bufs % 2 ^ 32 ≤ c.buf_size → total_size c bufs ≤ c.buf_size

section plans

variable {c : Call} {p : Pool} {plan : Plan}

theorem buf_size_lt (c : Call) : c.buf_size < 2 ^ 32 := by
  have := c.buf_size_le
  unfold MAX_FASTRPC_BUF_SIZE at this
  omega

/-- The first size loop decides between the two layouts. -/
theorem first_size (c : Call) :
    (metalen c + (copylen_loop c 0 c.args ⟨0, 0⟩).copylen + handlelen_loop c.handles 0) % 2 ^ 64 =
      direct_size c % 2 ^ 64 := by
  have hcopy := (copylen_loop_counts (c := c) (i := 0) (s := ⟨0, 0⟩) c.args (by simp)).1
  rw [handlelen_loop_eq c.handles (by omega), hcopy]
  simp only [direct_size, total_size, zip_without_bufs]
  omega

theorem get_plan_direct (h : direct_size c % 2 ^ 64 ≤ c.buf_size) :
    ∃ plan, get_plan c p = .ok plan ∧ plan.internal = c.args.map (fun _ => none) := by
  unfold get_plan
  simp only [first_size c, if_pos h]
  exact ⟨_, rfl, rfl⟩

theorem get_plan_internal (h : c.buf_size < direct_size c % 2 ^ 64)
    {bufs : List (Option Buf)} (hbufs : internal_bufs c p = some bufs)
    (hk : c.kcalloc = true) : ∃ plan, get_plan c p = .ok plan ∧ plan.internal = bufs := by
  obtain ⟨⟨s, desc⟩, hrun, rfl⟩ := Option.map_eq_some_iff.mp hbufs
  unfold get_plan
  simp only [first_size c, if_neg (Nat.not_le.mpr h), hk, Bool.not_true, Bool.false_eq_true,
    if_false, hrun]
  exact ⟨_, rfl, rfl⟩

theorem get_plan_cases (h : get_plan c p = .ok plan) :
    (direct_size c % 2 ^ 64 ≤ c.buf_size ∧ plan.internal = c.args.map (fun _ => none)) ∨
      (c.buf_size < direct_size c % 2 ^ 64 ∧ internal_bufs c p = some plan.internal) := by
  unfold get_plan at h
  simp only [first_size c] at h
  split at h
  · cases h
    exact Or.inl ⟨‹_›, rfl⟩
  split at h
  · cases h
  split at h
  · cases h
  · rename_i hsize _ s desc hrun
    cases h
    exact Or.inr ⟨by omega, by simp [internal_bufs, hrun]⟩

/-- A message whose size is right lies in the buffer. -/
theorem inBounds_of_total_le (h : ∀ plan, get_plan c p = .ok plan →
    (virt_alloc_msg c plan.size).isSome → total_size c plan.internal ≤ c.buf_size) :
    InBounds c p := by
  have hb := buf_size_lt c
  intro s hs
  unfold spans at hs
  rcases hplan : get_plan c p with e | plan
  · simp [hplan] at hs
  rcases hmsg : virt_alloc_msg c plan.size with _ | txbuf
  · simp [hplan, hmsg] at hs
  simp only [hplan, hmsg] at hs
  have htotal := h plan hplan (by simp [hmsg])
  unfold total_size at htotal
  rcases List.mem_cons.mp hs with rfl | hs
  · dsimp only
    omega
  · have hwithin := (within_buf_turns (c := c) (i := 0) (c.args.zip plan.internal)
      (show metalen c + _ ≤ c.buf_size by omega) (by omega)).andThen
      (within_handle_turns c.handles (by omega) (by omega))
    exact hwithin.inside s hs

theorem inBounds_of_counted (h : Counted c p) : InBounds c p := by
  apply inBounds_of_total_le
  intro plan hplan hmsg
  obtain ⟨hlen, hsize, _, _⟩ := get_plan_counts hplan
  have hfits : plan.size % 2 ^ 32 ≤ c.buf_size := by
    unfold virt_alloc_msg at hmsg
    split at hmsg
    · cases hmsg
    · omega
  rcases get_plan_cases hplan with ⟨hdirect, hint⟩ | ⟨hover, hint⟩
  · rw [hint]
    exact h.direct hdirect
  · apply h.internal hover _ hint
    rw [hsize] at hfits
    omega

/-- A message with room for each turn has the right size. -/
theorem total_le_of_inBounds (h : InBounds c p) (hplan : get_plan c p = .ok plan)
    (hmsg : (virt_alloc_msg c plan.size).isSome) (hw : Willing c c.args) :
    total_size c plan.internal ≤ c.buf_size := by
  have hb := buf_size_lt c
  obtain ⟨txbuf, htx⟩ := Option.isSome_iff_exists.mp hmsg
  unfold InBounds spans at h
  simp only [hplan, htx] at h
  obtain ⟨hmeta, hrest⟩ := List.forall_mem_cons.mp h
  have hfst : ∀ a ∈ (c.args.zip plan.internal).map Prod.fst, a ∈ c.args := by
    intro a ha
    obtain ⟨x, hx, rfl⟩ := List.mem_map.mp ha
    exact (List.of_mem_zip hx).1
  have hgoes : Goes c.buf_size (metalen c) _ _ :=
    (goes_buf_turns (i := 0) (c.args.zip plan.internal)
      ⟨hw.1, fun a ha => hw.2 a (hfst a ha)⟩ (by omega)).andThen
      (goes_handle_turns c.handles (by omega))
  have := hgoes.fits (by simpa using hmeta) hrest
  unfold total_size
  omega

end plans

/-! ## What the request decides -/

/-- The buffer without the answer of find_vma. -/
def Arg.noVma (a : Arg) : Arg :=
  { a with created := a.created.map (fun m => { m with vm_start := none }) }

/-- The same arguments and the same tables, in another environment: the memory of the user, the
vmas of its address space and what the kernel has left may differ. -/
structure SameRequest (c c' : Call) : Prop where
  buf_size : c'.buf_size = c.buf_size
  inbufs : c'.inbufs = c.inbufs
  args : c'.args.map Arg.noVma = c.args.map Arg.noVma
  handles : c'.handles = c.handles
  sgt : c'.sgt = c.sgt

section requests

variable {c c' : Call} {p : Pool}

theorem noVma_map (a : Arg) :
    a.noVma.map = a.map.map (fun m => { m with vm_start := none }) := by
  unfold Arg.noVma Arg.map
  dsimp only
  split <;> rfl

theorem plen_noVma (hsgt : c'.sgt = c.sgt) (a : Arg) (d : Option Buf) :
    plen c' a.noVma d = plen c a d := by
  unfold plen
  rw [noVma_map]
  rcases a.map with _ | m
  · rcases d with _ | b
    · rfl
    · simp [hsgt]
  · rfl

theorem lens_noVma (hsgt : c'.sgt = c.sgt) (as : List Arg) (internal : List (Option Buf)) :
    lens c' ((as.map Arg.noVma).zip internal) = lens c (as.zip internal) := by
  induction as generalizing internal with
  | nil => rfl
  | cons a as ih =>
    rcases internal with _ | ⟨d, internal⟩
    · rfl
    · simp [plen_noVma hsgt, ih]

theorem SameRequest.length (h : SameRequest c c') : c'.args.length = c.args.length := by
  simpa using congrArg List.length h.args

theorem SameRequest.total_size (h : SameRequest c c') (internal : List (Option Buf)) :
    total_size c' internal = total_size c internal := by
  have hmeta : metalen c' = metalen c := by simp [metalen, Call.total, h.length, h.handles]
  have hlens : lens c' (c'.args.zip internal) = lens c (c.args.zip internal) := by
    rw [← lens_noVma rfl c'.args internal, h.args, lens_noVma h.sgt]
  unfold virtio_message.total_size
  rw [hmeta, hlens, h.handles]

theorem SameRequest.direct_size (h : SameRequest c c') : direct_size c' = direct_size c := by
  have hnone : c'.args.map (fun _ => (none : Option Buf)) = c.args.map (fun _ => none) := by
    rw [List.map_const', List.map_const', h.length]
  unfold virtio_message.direct_size
  rw [hnone, h.total_size]

/-- The allocations of the internal buffers do not see the vmas. -/
theorem desc_loop_noVma (hin : c'.inbufs = c.inbufs) (hsgt : c'.sgt = c.sgt) (i : Nat)
    (as : List Arg) (p : Pool) (s : Sizes) :
    desc_loop c' i (as.map Arg.noVma) p s = desc_loop c i as p s := by
  have hadd : ∀ i n (s : Sizes), s.add c' i n = s.add c i n := by
    intro i n s
    simp [Sizes.add, hin]
  induction as generalizing i p s with
  | nil => rfl
  | cons a as ih =>
    rw [List.map_cons]
    unfold desc_loop
    rw [noVma_map]
    rcases a.map with _ | m
    · simp only [Option.map_none, hadd, hsgt, ih]
      rfl
    · simp only [Option.map_some, hadd, ih]
      rfl

theorem SameRequest.internal_bufs (h : SameRequest c c') :
    internal_bufs c' p = internal_bufs c p := by
  have hruns : desc_loop c' 0 c'.args p ⟨0, 0⟩ = desc_loop c 0 c.args p ⟨0, 0⟩ := by
    rw [← desc_loop_noVma (c := c') rfl rfl, h.args, desc_loop_noVma h.inbufs h.sgt]
  unfold virtio_message.internal_bufs
  rw [hruns]

theorem SameRequest.counted (h : SameRequest c c') (hc : Counted c p) : Counted c' p := by
  refine ⟨?_, ?_⟩
  · rw [h.direct_size, h.buf_size]
    exact hc.direct
  · rw [h.direct_size, h.buf_size, h.internal_bufs]
    intro hover bufs hbufs
    rw [h.total_size]
    exact hc.internal hover bufs hbufs

/-- The environment in which no turn fails: each vma starts where the offset of its buffer wraps
to the negative length. -/
def Call.willing (c : Call) : Call :=
  { c with
    args := c.args.map (fun a =>
      { a with created := a.created.map (fun m => { m with vm_start := some (a.pv + a.len) }) })
    kcalloc := true
    txbuf := some 0
    user := ⟨fun _ => some 0, fun n => n⟩
    inbufs_le := by simpa using c.inbufs_le }

theorem sameRequest_willing (c : Call) : SameRequest c c.willing := by
  refine ⟨rfl, rfl, ?_, rfl, rfl⟩
  simp only [Call.willing, List.map_map]
  apply List.map_congr_left
  intro a _
  simp [Arg.noVma, Function.comp_def]

theorem mapM_isSome {α β : Type} {f : α → Option β} {l : List α}
    (h : ∀ x ∈ l, (f x).isSome = true) :
    (l.mapM f).isSome = true := by
  induction l with
  | nil => rfl
  | cons a l ih =>
    obtain ⟨b, hb⟩ := Option.isSome_iff_exists.mp (h a List.mem_cons_self)
    obtain ⟨bs, hbs⟩ := Option.isSome_iff_exists.mp
      (ih (fun x hx => h x (List.mem_cons_of_mem _ hx)))
    simp [List.mapM_cons, hb, hbs]

theorem willing_willing (c : Call) : Willing c.willing c.willing.args := by
  refine ⟨fun src n => ?_, fun a ha m hm => ?_⟩
  · exact mapM_isSome (fun _ _ => rfl)
  · obtain ⟨a', _, rfl⟩ := List.mem_map.mp ha
    have hstart : m.vm_start = some (a'.pv + a'.len) := by
      unfold Arg.map at hm
      dsimp only at hm
      split at hm
      · cases hm
      · obtain ⟨m', _, rfl⟩ := Option.map_eq_some_iff.mp hm
        rfl
    refine ⟨a'.pv - (a'.pv + a'.len), ?_⟩
    simp [map_offset, hstart]

/-- In every environment get_args stays in the tx buffer, if and only if no size that it checks
passes by a wrap. -/
theorem get_args_stays_in_the_buffer_iff (c : Call) (p : Pool) :
    (∀ c', SameRequest c c' → InBounds c' p) ↔ Counted c p := by
  constructor
  · intro h
    have hin := h c.willing (sameRequest_willing c)
    have hsame := sameRequest_willing c
    have hw := willing_willing c
    -- a size that passes its check gets a message there
    have hfits {plan : Plan} (hplan : get_plan c.willing p = .ok plan)
        (hsize : total_size c plan.internal % 2 ^ 32 ≤ c.buf_size) :
        total_size c plan.internal ≤ c.buf_size := by
      rw [← hsame.total_size]
      apply total_le_of_inBounds hin hplan _ hw
      obtain ⟨_, hs, _, _⟩ := get_plan_counts hplan
      rw [hsame.total_size] at hs
      unfold virt_alloc_msg
      rw [if_neg (show ¬ c.willing.buf_size < plan.size % 2 ^ 32 by change ¬ c.buf_size < _; omega)]
      rfl
    refine ⟨fun hdirect => ?_, fun hover bufs hbufs hsize => ?_⟩
    · obtain ⟨plan, hplan, hint⟩ : ∃ plan, get_plan c.willing p = .ok plan ∧
          plan.internal = c.willing.args.map (fun _ => none) :=
        get_plan_direct (by rw [hsame.direct_size]; exact hdirect)
      have hall : plan.internal = c.args.map (fun _ => none) := by
        rw [hint, List.map_const', List.map_const', hsame.length]
      have := hfits hplan
      rw [hall] at this
      apply this
      have := buf_size_lt c
      change direct_size c % 2 ^ 32 ≤ c.buf_size
      omega
    · obtain ⟨plan, hplan, hint⟩ : ∃ plan, get_plan c.willing p = .ok plan ∧ plan.internal = bufs :=
        get_plan_internal (by rw [hsame.direct_size]; exact hover)
          (by rw [hsame.internal_bufs]; exact hbufs) rfl
      have := hfits hplan
      rw [hint] at this
      exact this hsize
  · intro h c' hsame
    exact inBounds_of_counted (hsame.counted h)

/-- An in-buffer of two pages and an out-buffer whose length is that of the in-buffer below 2^64,
for tx buffers of one page. -/
def wrappedCall : Call where
  buf_size := 4096
  inbufs := 1
  args := [⟨0x10000, 8192, false, none⟩, ⟨0x20000, -8192, false, none⟩]
  handles := []
  kcalloc := true
  txbuf := some 0x80000
  sgt _ := []
  user := ⟨fun _ => some 0, fun n => n⟩
  crc := none
  perf_dsp := none
  inbufs_le := by decide
  buf_size_le := page_le_max

/-- The two lengths add up to nothing, so the message is taken to fit, and the in-buffer is
written behind the tx buffer. -/
theorem a_wrapped_size_overruns_the_buffer :
    direct_size wrappedCall % 2 ^ 64 ≤ wrappedCall.buf_size ∧
      get_args wrappedCall ⟨[], [], []⟩ = .error .overrun ∧
      ¬ InBounds wrappedCall ⟨[], [], []⟩ := by
  refine ⟨by decide, by decide +kernel, fun h => ?_⟩
  have hplan : get_plan wrappedCall ⟨[], [], []⟩ =
      .ok ⟨metalen wrappedCall, 8192, [none, none]⟩ := by decide +kernel
  have hmsg : virt_alloc_msg wrappedCall (metalen wrappedCall) = some 0x80000 := by decide
  have hturn : ⟨metalen wrappedCall, 8192, true⟩ ∈
      (buf_turn wrappedCall 0 ⟨0x10000, 8192, false, none⟩ none (metalen wrappedCall)).1 := by
    simp [buf_turn, Arg.map, piece, copied, wrappedCall]
  have hin : ⟨metalen wrappedCall, 8192, true⟩ ∈ spans wrappedCall ⟨[], [], []⟩ := by
    simp only [spans, hplan, hmsg]
    exact List.mem_cons_of_mem _ (mem_andThen (mem_andThen hturn))
  exact absurd (h _ hin) (by decide)

end requests

end virtual_fastrpc.virtio_message
