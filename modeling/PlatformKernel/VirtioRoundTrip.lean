-- The loops of get_args and put_args of the virtio driver agree on the message:
-- both size loops count what the write loops write, and the loop of put_args
-- finds each out-buffer where get_args has left room for it.
import PlatformKernel.VirtioMessage

namespace virtual_fastrpc.virtio_message

open bytes buffers map_table
open virtio_marshal (SIZE_OF_MAPPING sizeof_virt_invoke_msg sizeof_virt_fastrpc_buf)

/-! ## The length of a buffer in the message -/

/-- The payload of a buffer: a mapping for its map or for its internal buffer, and else its
bytes. -/
def plen (c : Call) (a : Arg) (d : Option Buf) : Nat :=
  match a.map, d with
  | some m, _ => get_size_of_mapping m
  | none, some b => SIZE_OF_MAPPING (c.sgt b).length
  | none, none => a.len.toNat

def lens (c : Call) (bufs : List (Arg × Option Buf)) : Nat :=
  (bufs.map (fun b => plen c b.1 b.2)).sum

/-- The payloads of the dma handles. -/
def hlens (hs : List Handle) : Nat :=
  (hs.map (fun h => (h.map.map (fun m => SIZE_OF_MAPPING m.sgl.length)).getD 0)).sum

section lens

variable {c : Call} {a : Arg} {d : Option Buf} {bufs : List (Arg × Option Buf)}

@[simp] theorem lens_nil (c : Call) : lens c [] = 0 := rfl

@[simp] theorem lens_cons (c : Call) (a : Arg) (d : Option Buf) (bufs : List (Arg × Option Buf)) :
    lens c ((a, d) :: bufs) = plen c a d + lens c bufs := by
  simp [lens]

theorem lens_append (c : Call) (bufs bufs' : List (Arg × Option Buf)) :
    lens c (bufs ++ bufs') = lens c bufs + lens c bufs' := by
  simp [lens]

theorem lens_take_le (c : Call) (bufs : List (Arg × Option Buf)) (n : Nat) :
    lens c (bufs.take n) ≤ lens c bufs := by
  have hsplit := lens_append c (bufs.take n) (bufs.drop n)
  rw [List.take_append_drop] at hsplit
  omega

@[simp] theorem hlens_nil : hlens [] = 0 := rfl

@[simp] theorem hlens_cons (h : Handle) (hs : List Handle) :
    hlens (h :: hs) = (h.map.map (fun m => SIZE_OF_MAPPING m.sgl.length)).getD 0 + hlens hs := by
  simp [hlens]

theorem plen_some {m : MapRef} (h : a.map = some m) : plen c a d = get_size_of_mapping m := by
  simp [plen, h]

theorem plen_internal {b : Buf} (h : a.map = none) :
    plen c a (some b) = SIZE_OF_MAPPING (c.sgt b).length := by
  simp [plen, h]

theorem plen_none (h : a.map = none) : plen c a none = a.len.toNat := by
  simp [plen, h]

end lens

/-! ## The size loops -/

/-- A size loop has counted the buffers from the buffer `i` on. -/
def Counts (c : Call) (i : Nat) (bufs : List (Arg × Option Buf)) (s s' : Sizes) : Prop :=
  s'.copylen = (s.copylen + lens c bufs) % 2 ^ 64 ∧
    s'.outbufs_offset = (s.outbufs_offset + lens c (bufs.take (c.inbufs - i))) % 2 ^ 32

section sizes

variable {c : Call} {i : Nat} {a : Arg} {d : Option Buf}
  {bufs : List (Arg × Option Buf)} {s s' : Sizes}

theorem counts_nil (h : s.copylen < 2 ^ 64 ∧ s.outbufs_offset < 2 ^ 32) : Counts c i [] s s := by
  refine ⟨?_, ?_⟩
  · rw [lens_nil, Nat.add_zero, Nat.mod_eq_of_lt h.1]
  · rw [List.take_nil, lens_nil, Nat.add_zero, Nat.mod_eq_of_lt h.2]

/-- One buffer and the rest. -/
theorem lens_take_cons (c : Call) (i : Nat) (a : Arg) (d : Option Buf)
    (bufs : List (Arg × Option Buf)) :
    lens c (((a, d) :: bufs).take (c.inbufs - i)) =
      (if i < c.inbufs then plen c a d else 0) + lens c (bufs.take (c.inbufs - (i + 1))) := by
  by_cases hi : i < c.inbufs
  · rw [show c.inbufs - i = (c.inbufs - (i + 1)) + 1 by omega, List.take_succ_cons, lens_cons,
      if_pos hi]
  · rw [show c.inbufs - i = 0 by omega, show c.inbufs - (i + 1) = 0 by omega]
    simp [hi]

theorem Counts.cons (h : Counts c (i + 1) bufs (s.add c i (plen c a d)) s') :
    Counts c i ((a, d) :: bufs) s s' := by
  obtain ⟨hlen, hoff⟩ := h
  unfold Counts
  rw [lens_cons, lens_take_cons]
  simp only [Sizes.add] at hlen hoff
  split at hoff
  · rename_i hi
    rw [if_pos hi]
    omega
  · rename_i hi
    rw [if_neg hi]
    omega

/-- A buffer without a payload need not be counted. -/
theorem Counts.skip (h : Counts c (i + 1) bufs s s') (h0 : plen c a d = 0) :
    Counts c i ((a, d) :: bufs) s s' := by
  unfold Counts at h ⊢
  rw [lens_cons, lens_take_cons, h0]
  simpa using h

theorem Sizes.add_lt (c : Call) (i n : Nat) (h : s.outbufs_offset < 2 ^ 32) :
    (s.add c i n).copylen < 2 ^ 64 ∧ (s.add c i n).outbufs_offset < 2 ^ 32 := by
  unfold Sizes.add
  dsimp only
  split <;> omega

/-- The first loop counts the message without internal buffers. -/
theorem copylen_loop_counts (as : List Arg) (h : s.copylen < 2 ^ 64 ∧ s.outbufs_offset < 2 ^ 32) :
    Counts c i (as.map (fun a => (a, none))) s (copylen_loop c i as s) := by
  induction as generalizing i s with
  | nil => exact counts_nil h
  | cons a as ih =>
    rw [List.map_cons]
    unfold copylen_loop
    split
    · rename_i h0
      have hmap : a.map = none := by simp [Arg.map, h0]
      refine (ih h).skip ?_
      rw [plen_none hmap, h0]
      rfl
    · rename_i h0
      have hmap : a.map = a.created := if_neg h0
      apply Counts.cons
      unfold plen
      rw [hmap]
      rcases a.created with _ | m
      · exact ih (Sizes.add_lt c i _ h.2)
      · exact ih (Sizes.add_lt c i _ h.2)

/-- The second loop counts the message with the internal buffers that it takes, and takes one for
each buffer of a page or more without a map. -/
theorem desc_loop_counts {as : List Arg} {p : Pool} {desc : List Desc}
    (h : s.copylen < 2 ^ 64 ∧ s.outbufs_offset < 2 ^ 32)
    (hrun : desc_loop c i as p s = some (s', desc)) :
    Counts c i (as.zip (desc.map Desc.buf)) s s' ∧ desc.length = as.length ∧
      ∀ x ∈ as.zip (desc.map Desc.buf), x.1.map = none → x.2 = none →
        x.1.len.toNat < PAGE_SIZE := by
  induction as generalizing i p s desc with
  | nil =>
    cases hrun
    exact ⟨counts_nil h, rfl, by simp⟩
  | cons a as ih =>
    unfold desc_loop at hrun
    rcases hm : a.map with _ | m
    · simp only [hm] at hrun
      split at hrun
      · rename_i hsmall
        obtain ⟨⟨s₁, desc₁⟩, hrest, he⟩ := Option.map_eq_some_iff.mp hrun
        cases he
        obtain ⟨hc, hl, hs⟩ := ih (Sizes.add_lt c i _ h.2) hrest
        refine ⟨Counts.cons (by rw [← plen_none (c := c) hm] at hc; exact hc), by simp [hl], ?_⟩
        exact List.forall_mem_cons.mpr ⟨fun _ _ => hsmall, hs⟩
      · split at hrun
        · cases hrun
        · rename_i b p' _
          obtain ⟨⟨s₁, desc₁⟩, hrest, he⟩ := Option.map_eq_some_iff.mp hrun
          cases he
          obtain ⟨hc, hl, hs⟩ := ih (Sizes.add_lt c i _ h.2) hrest
          refine ⟨Counts.cons (by rw [← plen_internal (c := c) hm] at hc; exact hc),
            by simp [hl], ?_⟩
          exact List.forall_mem_cons.mpr ⟨fun _ hb => absurd hb nofun, hs⟩
    · simp only [hm] at hrun
      obtain ⟨⟨s₁, desc₁⟩, hrest, he⟩ := Option.map_eq_some_iff.mp hrun
      cases he
      obtain ⟨hc, hl, hs⟩ := ih (Sizes.add_lt c i _ h.2) hrest
      refine ⟨Counts.cons (by rw [← plen_some (c := c) (d := none) hm] at hc; exact hc),
        by simp [hl], ?_⟩
      exact List.forall_mem_cons.mpr ⟨fun hn _ => absurd (hm.symm.trans hn) nofun, hs⟩

theorem handlelen_loop_eq (hs : List Handle) {n : Nat} (h : n < 2 ^ 64) :
    handlelen_loop hs n = (n + hlens hs) % 2 ^ 64 := by
  induction hs generalizing n with
  | nil => exact (Nat.mod_eq_of_lt h).symm
  | cons x hs ih =>
    unfold handlelen_loop
    rcases hm : x.map with _ | m
    · simp [hm, ih h]
    · rw [hlens_cons, hm]
      simp only [Option.map_some, Option.getD_some]
      rw [ih (by omega)]
      omega

end sizes

/-! ## The write loops -/

/-- The entry of a buffer has its length and the length of its payload. -/
def EntryOf (c : Call) (b : Arg × Option Buf) (e : Option VirtFastrpcBuf) : Prop :=
  ∃ x, e = some x ∧ x.buf_len = b.1.len ∧ x.payload_len = BitVec.ofNat 64 (plen c b.1 b.2)

/-- The values of `payload` at the buffers, from `pos` on. -/
def positions (c : Call) : Nat → List (Arg × Option Buf) → List Nat
  | _, [] => []
  | pos, b :: bufs => pos :: positions c (pos + plen c b.1 b.2) bufs

/-- What a turn of the write loop does: it goes on by the payload of the buffer, which ends in the
tx buffer when something is written there. -/
structure Wrote (c : Call) (b : Arg × Option Buf) (w w' : Writer) : Prop where
  payload : w'.payload = (w.payload + plen c b.1 b.2) % 2 ^ 64
  pra : ∃ e, EntryOf c b e ∧ w'.pra = w.pra ++ [e]
  places : w'.places = w.places ++ [w.payload]
  room : w.payload + plen c b.1 b.2 ≤ c.tx_size ∨ (b.1.map = none ∧ b.2 = none)

section writes

variable {c : Call} {txbuf i : Nat} {a : Arg} {d : Option Buf} {w w' : Writer}

theorem mapping_ok {m : VirtFastrpcMapping} (h : w.mapping c m = .ok w') :
    w.payload + SIZE_OF_MAPPING m.sgl.length ≤ c.tx_size ∧ w'.payload = w.payload ∧ w'.pra = w.pra ∧
      w'.places = w.places := by
  unfold Writer.mapping at h
  split at h
  · cases h
  · cases h
    exact ⟨by omega, rfl, rfl, rfl⟩

theorem copy_ok {dst : Nat} (h : w.copy c a dst = .ok w') :
    w'.payload = w.payload ∧ w'.pra = w.pra ∧ w'.places = w.places := by
  unfold Writer.copy at h
  split at h
  · cases h
  · cases h
    exact ⟨rfl, rfl, rfl⟩

theorem size_of_mapping (m : MapRef) :
    SIZE_OF_MAPPING m.mapping.sgl.length = get_size_of_mapping m := by
  unfold MapRef.mapping get_size_of_mapping
  split <;> rfl

/-- A turn that ends with `next`. -/
theorem wrote_next {b : Arg × Option Buf} {w₁ : Writer} {entry : VirtFastrpcBuf} {n : Nat}
    (hsame : w₁.payload = w.payload ∧ w₁.pra = w.pra ∧ w₁.places = w.places)
    (hn : n = plen c b.1 b.2) (hlen : entry.buf_len = b.1.len)
    (hpay : entry.payload_len = BitVec.ofNat 64 n)
    (hroom : w.payload + plen c b.1 b.2 ≤ c.tx_size ∨ (b.1.map = none ∧ b.2 = none)) :
    Wrote c b w (w₁.next entry n) := by
  obtain ⟨h1, h2, h3⟩ := hsame
  refine ⟨?_, ⟨some entry, ⟨entry, rfl, hlen, by rw [hpay, hn]⟩, ?_⟩, ?_, hroom⟩
  · simp [Writer.next, h1, hn]
  · simp [Writer.next, h2]
  · simp [Writer.next, h1, h3]

theorem bind_ok {α β : Type} {x : Except Exit α} {f : α → Except Exit β} {r : β}
    (h : x >>= f = .ok r) : ∃ a, x = .ok a ∧ f a = .ok r := by
  cases x with
  | error e => cases h
  | ok a => exact ⟨a, rfl, h⟩

theorem write_buf_wrote (h : write_buf c txbuf i a d w = .ok w') : Wrote c (a, d) w w' := by
  unfold write_buf at h
  rcases hm : a.map with _ | m
  · rcases d with _ | b
    · -- the bytes of the buffer
      have hdone {w₁ : Writer}
          (hsame : w₁.payload = w.payload ∧ w₁.pra = w.pra ∧ w₁.places = w.places) :
          Wrote c (a, none) w (w₁.next ⟨0, a.pv, a.len, 0, a.len⟩ a.len.toNat) :=
        wrote_next hsame (plen_none hm).symm rfl (by simp) (Or.inr ⟨hm, rfl⟩)
      simp only [hm] at h
      split at h
      · split at h
        · cases h
        · obtain ⟨w₁, hw₁, h⟩ := bind_ok h
          cases h
          exact hdone (copy_ok hw₁)
      · cases h
        exact hdone ⟨rfl, rfl, rfl⟩
    · -- an internal buffer
      simp only [hm] at h
      obtain ⟨w₁, hw₁, h⟩ := bind_ok h
      obtain ⟨hroom, h1, h2, h3⟩ := mapping_ok hw₁
      have hdone {w₂ : Writer}
          (hsame : w₂.payload = w₁.payload ∧ w₂.pra = w₁.pra ∧ w₂.places = w₁.places) :
          Wrote c (a, some b) w (w₂.next ⟨VFASTRPC_BUF_ATTR_INTERNAL, a.pv, a.len, 0,
            BitVec.ofNat 64 (SIZE_OF_MAPPING (c.sgt b).length)⟩
            (SIZE_OF_MAPPING (c.sgt b).length)) := by
        obtain ⟨h1', h2', h3'⟩ := hsame
        refine wrote_next ⟨h1'.trans h1, h2'.trans h2, h3'.trans h3⟩ (plen_internal hm).symm rfl rfl
          (Or.inl ?_)
        rw [plen_internal hm]
        exact hroom
      split at h
      · obtain ⟨w₂, hw₂, h⟩ := bind_ok h
        cases h
        exact hdone (copy_ok hw₂)
      · cases h
        exact hdone ⟨rfl, rfl, rfl⟩
  · -- a map
    simp only [hm] at h
    obtain ⟨offset, _, h⟩ := bind_ok h
    obtain ⟨w₁, hw₁, h⟩ := bind_ok h
    cases h
    obtain ⟨hroom, hsame⟩ := mapping_ok hw₁
    rw [size_of_mapping] at hroom
    refine wrote_next hsame (plen_some hm).symm rfl rfl (Or.inl ?_)
    rw [plen_some hm]
    exact hroom

/-- The loop over the buffers. -/
theorem write_loop_spec {bufs : List (Arg × Option Buf)} (h : write_loop c txbuf i bufs w = .ok w')
    (hwrap : w.payload + lens c bufs < 2 ^ 64) :
    w'.payload = w.payload + lens c bufs ∧ w'.places = w.places ++ positions c w.payload bufs ∧
      ∃ es, w'.pra = w.pra ++ es ∧ List.Forall₂ (EntryOf c) bufs es := by
  induction bufs generalizing i w with
  | nil =>
    cases h
    exact ⟨by simp, by simp [positions], [], by simp, List.Forall₂.nil⟩
  | cons b bufs ih =>
    obtain ⟨a, d⟩ := b
    simp only [write_loop, bind, Except.bind] at h
    split at h
    · cases h
    rename_i w₁ hw₁
    obtain ⟨hpay, ⟨e, he, hpra⟩, hplaces, _⟩ := write_buf_wrote hw₁
    rw [lens_cons] at hwrap
    rw [Nat.mod_eq_of_lt (by dsimp only; omega)] at hpay
    dsimp only at hpay
    obtain ⟨h1, h2, es, h3, h4⟩ := ih h (by omega)
    refine ⟨by rw [h1, hpay, lens_cons]; omega, ?_, e :: es, ?_, List.Forall₂.cons he h4⟩
    · rw [h2, hplaces, positions, hpay]
      simp
    · rw [h3, hpra]
      simp

/-- A loop in which only small buffers are without a mapping leaves the tx buffer by little. -/
theorem write_loop_le {bufs : List (Arg × Option Buf)} (h : write_loop c txbuf i bufs w = .ok w')
    (hsmall : ∀ x ∈ bufs, x.1.map = none → x.2 = none → x.1.len.toNat < PAGE_SIZE) {k : Nat}
    (hle : w.payload ≤ c.tx_size + k * PAGE_SIZE) :
    w'.payload ≤ c.tx_size + (k + bufs.length) * PAGE_SIZE := by
  induction bufs generalizing i w k with
  | nil =>
    cases h
    exact hle
  | cons b bufs ih =>
    obtain ⟨a, d⟩ := b
    simp only [write_loop, bind, Except.bind] at h
    split at h
    · cases h
    rename_i w₁ hw₁
    obtain ⟨hone, hsmall⟩ := List.forall_mem_cons.mp hsmall
    obtain ⟨hpay, _, _, hroom⟩ := write_buf_wrote hw₁
    have hmod : (w.payload + plen c a d) % 2 ^ 64 ≤ w.payload + plen c a d := Nat.mod_le _ _
    have hsucc : (k + 1) * PAGE_SIZE = k * PAGE_SIZE + PAGE_SIZE := Nat.succ_mul ..
    have hnext : w₁.payload ≤ c.tx_size + (k + 1) * PAGE_SIZE := by
      rcases hroom with hroom | ⟨hm, hd⟩
      · dsimp only at hroom hpay
        omega
      · dsimp only at hm hd hpay
        subst hd
        have hlen := hone hm rfl
        rw [plen_none hm] at hpay hmod
        dsimp only at hlen
        omega
    have hrest := ih h hsmall hnext
    rw [List.length_cons, show k + (bufs.length + 1) = k + 1 + bufs.length by omega]
    exact hrest

/-- The loop over the dma handles. -/
theorem write_handles_spec {hs : List Handle} (h : write_handles c hs w = .ok w')
    (hwrap : w.payload + hlens hs < 2 ^ 64) :
    w'.payload = w.payload + hlens hs ∧ w'.places = w.places ∧ (∃ es, w'.pra = w.pra ++ es) ∧
      w'.payload ≤ max w.payload c.tx_size := by
  induction hs generalizing w with
  | nil =>
    cases h
    exact ⟨by simp, rfl, ⟨[], by simp⟩, by omega⟩
  | cons x hs ih =>
    simp only [write_handles, bind, Except.bind] at h
    rw [hlens_cons] at hwrap ⊢
    split at h
    · cases h
    rename_i w₁ hw₁
    unfold write_handle at hw₁
    rcases hm : x.map with _ | m
    · simp only [hm] at hw₁
      cases hw₁
      simp only [hm, Option.map_none, Option.getD_none, Nat.zero_add] at hwrap ⊢
      obtain ⟨h1, h2, ⟨es, h3⟩, h4⟩ := ih h hwrap
      exact ⟨h1, h2, ⟨none :: es, by rw [h3]; simp⟩, h4⟩
    · simp only [hm, bind, Except.bind] at hw₁
      split at hw₁
      · cases hw₁
      rename_i w₂ hw₂
      cases hw₁
      obtain ⟨hroom, hp, hpra, hplaces⟩ := mapping_ok hw₂
      simp only [hm, Option.map_some, Option.getD_some] at hwrap ⊢
      dsimp only at hroom
      have hmod : (w₂.payload + SIZE_OF_MAPPING m.sgl.length) % 2 ^ 64 =
          w.payload + SIZE_OF_MAPPING m.sgl.length := by
        rw [hp]
        exact Nat.mod_eq_of_lt (by omega)
      obtain ⟨h1, h2, ⟨es, h3⟩, h4⟩ := ih h (by dsimp only; omega)
      dsimp only at h1 h2 h3 h4
      rw [hmod] at h1 h4
      rw [hpra] at h3
      refine ⟨by omega, h2.trans hplaces, ⟨_ :: es, by rw [h3, List.append_assoc]; rfl⟩, by omega⟩

end writes

/-! ## The cursor and the header -/

/-- The size of the message, when nothing wraps. -/
def total_size (c : Call) (internal : List (Option Buf)) : Nat :=
  metalen c + lens c (c.args.zip internal) + hlens c.handles

/-- The first layout, which has a temporary buffer for none of the arguments. -/
theorem zip_without_bufs (args : List Arg) :
    args.zip (args.map (fun _ => (none : Option Buf))) = args.map (fun a => (a, none)) := by
  rw [List.zip_map_right, List.zip_eq_zipWith, List.zipWith_self, List.map_map]
  rfl

/-- Only small buffers are without a mapping. -/
def Paged (bufs : List (Arg × Option Buf)) : Prop :=
  ∀ x ∈ bufs, x.1.map = none → x.2 = none → x.1.len.toNat < PAGE_SIZE

section cursor

variable {c : Call} {p : Pool} {plan : Plan} {m : Message}

/-- Both ways to compute the size agree with the layout that is chosen. -/
theorem get_plan_counts (h : get_plan c p = .ok plan) :
    plan.internal.length = c.args.length ∧ plan.size = total_size c plan.internal % 2 ^ 64 ∧
      plan.outbufs_offset = lens c ((c.args.zip plan.internal).take c.inbufs) % 2 ^ 32 ∧
      (plan.size ≤ c.buf_size ∨ Paged (c.args.zip plan.internal)) := by
  unfold get_plan at h
  dsimp only at h
  rw [handlelen_loop_eq c.handles (by omega), Nat.zero_add] at h
  split at h
  · rename_i hsize
    cases h
    obtain ⟨hcopy, hoff⟩ := copylen_loop_counts (c := c) (i := 0) (s := ⟨0, 0⟩) c.args (by simp)
    dsimp only at hsize ⊢
    rw [zip_without_bufs]
    simp only [Nat.zero_add, Nat.sub_zero] at hcopy hoff
    refine ⟨by simp, ?_, hoff, Or.inl hsize⟩
    rw [hcopy, total_size, zip_without_bufs]
    omega
  split at h
  · cases h
  split at h
  · cases h
  rename_i s desc hrun
  cases h
  obtain ⟨⟨hcopy, hoff⟩, hlen, hsmall⟩ := desc_loop_counts (by simp) hrun
  simp only [Nat.zero_add, Nat.sub_zero] at hcopy hoff
  refine ⟨by simp [hlen], ?_, hoff, Or.inr hsmall⟩
  dsimp only
  rw [hcopy, total_size]
  omega

/-- What get_args has done when it succeeds. -/
theorem get_args_ok (h : get_args c p = .ok m) :
    ∃ plan txbuf w, get_plan c p = .ok plan ∧ plan.size % 2 ^ 32 ≤ c.buf_size ∧
      metalen c ≤ c.tx_size ∧
      write_loop c txbuf 0 (c.args.zip m.internal) ⟨metalen c, [], [], [], []⟩ = .ok w ∧
      write_handles c c.handles w = .ok m.writer ∧ m.hdr_len = BitVec.ofNat 32 plan.size ∧
      m.outbufs_offset = plan.outbufs_offset ∧ m.internal = plan.internal := by
  unfold get_args at h
  split at h
  · cases h
  rename_i plan hplan
  split at h
  · cases h
  rename_i txbuf htx
  split at h
  · cases h
  rename_i hmeta
  split at h
  · cases h
  rename_i w hw
  split at h
  · cases h
  rename_i w' hw'
  cases h
  refine ⟨plan, txbuf, w, hplan, ?_, by omega, hw, hw', rfl, rfl, rfl⟩
  unfold virt_alloc_msg at htx
  split at htx
  · cases htx
  · omega

theorem tx_size_le (c : Call) : c.tx_size ≤ MAX_FASTRPC_BUF_SIZE := by
  have hsize := c.buf_size_le
  have horder : get_order c.buf_size ≤ 10 := by
    unfold get_order
    dsimp only
    split
    · omega
    · rename_i hpages
      apply (Nat.log2_lt hpages).mpr
      unfold MAX_FASTRPC_BUF_SIZE at hsize
      unfold PAGE_SIZE
      omega
  have hpow : 2 ^ get_order c.buf_size ≤ 2 ^ 10 := Nat.pow_le_pow_right (by omega) horder
  unfold Call.tx_size MAX_FASTRPC_BUF_SIZE PAGE_SIZE
  omega

/-- The array of the message bounds the number of its buffers. -/
theorem total_bound (h : metalen c ≤ c.tx_size) :
    c.tx_size + c.args.length * PAGE_SIZE < 2 ^ 32 := by
  have htx := tx_size_le c
  unfold metalen sizeof_virt_invoke_msg sizeof_virt_fastrpc_buf Call.total at h
  unfold MAX_FASTRPC_BUF_SIZE at htx
  unfold PAGE_SIZE
  omega

/-- A message that is written is not larger than the buffers of the queue. -/
theorem total_size_le (h : get_args c p = .ok m) (hwrap : total_size c m.internal < 2 ^ 64) :
    total_size c m.internal ≤ c.buf_size := by
  obtain ⟨plan, txbuf, w, hplan, halloc, hmeta, hw, hhs, _, _, hint⟩ := get_args_ok h
  obtain ⟨hlen, hsize, _, hcase⟩ := get_plan_counts hplan
  rw [← hint] at hlen hsize hcase
  rw [Nat.mod_eq_of_lt hwrap] at hsize
  rw [hsize] at halloc hcase
  rcases hcase with hinline | hpaged
  · exact hinline
  obtain ⟨hpay, _⟩ := write_loop_spec hw (by unfold total_size at hwrap; dsimp only; omega)
  dsimp only at hpay
  have hcursor := write_loop_le hw hpaged (k := 0) (by dsimp only; omega)
  obtain ⟨hend, _, _, hle⟩ := write_handles_spec hhs (by
    rw [hpay]
    exact hwrap)
  have hbound := total_bound hmeta
  have hzip : (c.args.zip m.internal).length = c.args.length := by simp [hlen]
  rw [hzip, Nat.zero_add] at hcursor
  have htotal : m.writer.payload = total_size c m.internal := by
    rw [hend, hpay]
    rfl
  have hsmall : total_size c m.internal < 2 ^ 32 := by omega
  rw [Nat.mod_eq_of_lt hsmall] at halloc
  exact halloc

end cursor

/-! ## The answer -/

/-- The payloads that the entries name. -/
def payload_lens (pra : List (Option VirtFastrpcBuf)) : Nat :=
  (pra.map (fun e => (e.map (fun x => x.payload_len.toNat)).getD 0)).sum

/-- The backend returns the entries as they are. -/
def Unchanged (m : Message) (rsp : Rsp) : Prop :=
  ∀ i e, m.writer.pra[i]? = some (some e) → rsp.pra i = e

/-- Where the data of a buffer is in the answer: in its internal buffer, or at its payload. -/
def data_at (d : Option Buf) (rsp : Rsp) (place : Nat) :
    Nat := (d.map Buf.va).getD (rsp.rxbuf + place)

/-- The backend has written `data i` for each out-buffer `i` without a map. -/
def Written (c : Call) (m : Message) (rsp : Rsp) (mem : Mem) (data : Nat → List Byte) : Prop :=
  ∀ i a d place, c.inbufs ≤ i → (c.args.zip m.internal)[i]? = some (a, d) →
    m.writer.places[i]? = some place → a.map = none →
    load mem (data_at d rsp place) a.len.toNat = data i

/-- What the out-buffers without a map are to get, from the buffer `i` on. -/
def wanted (data : Nat → List Byte) : Nat → List Arg → List (Nat × List Byte)
  | _, [] => []
  | i, a :: as =>
    if a.map.isSome then wanted data (i + 1) as
    else (a.pv.toNat, data i) :: wanted data (i + 1) as

/-- What the memory of the user takes of some writes, up to the first that it does not take whole,
and whether it takes all. -/
def deliver (user : UserMem) : List (Nat × List Byte) → List (Nat × List Byte) × Bool
  | [] => ([], true)
  | (dst, bs) :: ws =>
    if bs.length ≤ user.takes dst then ((dst, bs) :: (deliver user ws).1, (deliver user ws).2)
    else ([(dst, bs.take (user.takes dst))], false)

/-- The memory of the user takes each out-buffer whole. -/
def Takes (c : Call) : Prop :=
  ∀ i a, c.inbufs ≤ i → c.args[i]? = some a → a.len.toNat ≤ c.user.takes a.pv.toNat

section answer

variable {c : Call} {p : Pool} {m : Message} {rsp : Rsp} {mem : Mem}
  {data : Nat → List Byte}

theorem entry_payload_len {b : Arg × Option Buf} {e : Option VirtFastrpcBuf} (h : EntryOf c b e)
    (hlt : plen c b.1 b.2 < 2 ^ 64) :
    (e.map (fun x => x.payload_len.toNat)).getD 0 = plen c b.1 b.2 := by
  obtain ⟨x, rfl, _, hpay⟩ := h
  rw [Option.map_some, Option.getD_some, hpay, BitVec.toNat_ofNat, Nat.mod_eq_of_lt hlt]

theorem payload_lens_eq {bufs : List (Arg × Option Buf)} {es : List (Option VirtFastrpcBuf)}
    (h : List.Forall₂ (EntryOf c) bufs es) (hlt : lens c bufs < 2 ^ 64) :
    payload_lens es = lens c bufs := by
  induction h with
  | nil => rfl
  | cons he _ ih =>
    rw [lens_cons] at hlt ⊢
    unfold payload_lens at ih ⊢
    rw [List.map_cons, List.sum_cons, entry_payload_len he (by omega), ih (by omega)]

theorem positions_length (pos : Nat) (bufs : List (Arg × Option Buf)) :
    (positions c pos bufs).length = bufs.length := by
  induction bufs generalizing pos with
  | nil => rfl
  | cons b bufs ih => simp [positions, ih]

theorem positions_drop (pos n : Nat) (bufs : List (Arg × Option Buf)) :
    (positions c pos bufs).drop n = positions c (pos + lens c (bufs.take n)) (bufs.drop n) := by
  induction bufs generalizing pos n with
  | nil => simp [positions]
  | cons b bufs ih =>
    cases n with
    | zero => simp
    | succ n =>
      rw [positions, List.drop_succ_cons, ih, List.take_succ_cons, lens_cons, List.drop_succ_cons,
        Nat.add_assoc]

/-- A copy that the memory of the user takes or not. -/
theorem copy_to_user_deliver {user : UserMem} {dst src n : Nat} (bs : List Byte)
    (h : load mem src n = bs) :
    copy_to_user user mem dst src n =
      if bs.length ≤ user.takes dst then ((dst, bs), true)
      else ((dst, bs.take (user.takes dst)), false) := by
  subst h
  unfold copy_to_user load
  by_cases hle : n ≤ user.takes dst
  · simp [hle]
  · rw [← List.map_take, List.take_range, Nat.min_comm]
    simp [hle]

/-- The loop of put_args finds each out-buffer where it is. -/
theorem read_loop_delivers {bufs : List (Arg × Option Buf)} {i pos : Nat}
    (hfit : rsp.rxbuf + pos + lens c bufs < 2 ^ 64)
    (hentries : ∀ j b, bufs[j]? = some b → EntryOf c b (some (rsp.pra (i + j))))
    (hdata : ∀ j a d place, bufs[j]? = some (a, d) → (positions c pos bufs)[j]? = some place →
      a.map = none → load mem (data_at d rsp place) a.len.toNat = data (i + j)) :
    read_loop c mem rsp i bufs (rsp.rxbuf + pos) =
      deliver c.user (wanted data i (bufs.map Prod.fst)) := by
  induction bufs generalizing i pos with
  | nil => rfl
  | cons b bufs ih =>
    obtain ⟨a, d⟩ := b
    rw [lens_cons] at hfit
    obtain ⟨entry, he, hlen, hpay⟩ := hentries 0 (a, d) rfl
    rw [Nat.add_zero] at he
    cases he
    have hnext : (rsp.rxbuf + pos + (rsp.pra i).payload_len.toNat) % 2 ^ 64 =
        rsp.rxbuf + (pos + plen c a d) := by
      rw [hpay, BitVec.toNat_ofNat]
      dsimp only
      omega
    have hrest : read_loop c mem rsp (i + 1) bufs (rsp.rxbuf + (pos + plen c a d)) =
        deliver c.user (wanted data (i + 1) (bufs.map Prod.fst)) := by
      apply ih
      · omega
      · intro j b hb
        have hj := hentries (j + 1) b hb
        rwa [show i + (j + 1) = i + 1 + j by omega] at hj
      · intro j a' d' place hb hplace hm
        have hj := hdata (j + 1) a' d' place hb hplace hm
        rwa [show i + (j + 1) = i + 1 + j by omega] at hj
    unfold read_loop
    simp only [hnext, hrest, List.map_cons, wanted]
    rcases hm : a.map with _ | mr
    · have hload := hdata 0 a d pos rfl rfl hm
      have hsame : (if d.isSome then a.len.toNat else (rsp.pra i).buf_len.toNat) = a.len.toNat := by
        rw [hlen]
        split <;> rfl
      rw [hsame, ← data_at, copy_to_user_deliver _ hload]
      simp only [Option.isSome_none, Bool.false_eq_true, if_false, deliver, Nat.add_zero]
      by_cases htake : (data i).length ≤ c.user.takes a.pv.toNat
      · simp [htake]
      · simp [htake]
    · rfl

/-- All that the writes want is delivered when the memory of the user takes it. -/
theorem deliver_all {user : UserMem} {ws : List (Nat × List Byte)}
    (h : ∀ x ∈ ws, x.2.length ≤ user.takes x.1) : deliver user ws = (ws, true) := by
  induction ws with
  | nil => rfl
  | cons x ws ih =>
    obtain ⟨hx, hws⟩ := List.forall_mem_cons.mp h
    simp [deliver, hx, ih hws]

theorem mem_wanted {as : List Arg} {i : Nat} {x : Nat × List Byte} (h : x ∈ wanted data i as) :
    ∃ j a, as[j]? = some a ∧ a.map = none ∧ x = (a.pv.toNat, data (i + j)) := by
  induction as generalizing i with
  | nil => cases h
  | cons a as ih =>
    have hrest (h : x ∈ wanted data (i + 1) as) :
        ∃ j a', (a :: as)[j]? = some a' ∧ a'.map = none ∧ x = (a'.pv.toNat, data (i + j)) := by
      obtain ⟨j, a', ha, hm, hx⟩ := ih h
      exact ⟨j + 1, a', ha, hm, by rw [hx, Nat.add_assoc, Nat.add_comm 1]⟩
    unfold wanted at h
    split at h
    · exact hrest h
    · rename_i hm
      rcases List.mem_cons.mp h with rfl | h
      · exact ⟨0, a, rfl, by simpa using hm, rfl⟩
      · exact hrest h

/-- The two loops that write the message, one after the other. -/
theorem get_args_writes (h : get_args c p = .ok m) (hwrap : total_size c m.internal < 2 ^ 64) :
    m.writer.payload = total_size c m.internal ∧
      m.writer.places = positions c (metalen c) (c.args.zip m.internal) ∧
      ∃ es hs, m.writer.pra = es ++ hs ∧ List.Forall₂ (EntryOf c) (c.args.zip m.internal) es := by
  obtain ⟨_, _, w, _, _, _, hw, hhs, _⟩ := get_args_ok h
  obtain ⟨hpay, hplaces, es, hpra, hes⟩ := write_loop_spec hw (by
    unfold total_size at hwrap
    dsimp only
    omega)
  obtain ⟨hend, hsame, ⟨hs, happ⟩, _⟩ := write_handles_spec hhs (by
    rw [hpay]
    exact hwrap)
  refine ⟨?_, ?_, es, hs, ?_, hes⟩
  · rw [hend, hpay]
    rfl
  · rw [hsame, hplaces]
    rfl
  · rw [happ, hpra]
    rfl

/-- `outbufs_offset` and `hdr.len` do not wrap, when the size does not. -/
theorem get_args_counts (h : get_args c p = .ok m) (hwrap : total_size c m.internal < 2 ^ 64) :
    m.internal.length = c.args.length ∧ m.hdr_len.toNat = total_size c m.internal ∧
      m.outbufs_offset = lens c ((c.args.zip m.internal).take c.inbufs) := by
  have hle := total_size_le h hwrap
  have hbuf := c.buf_size_le
  unfold MAX_FASTRPC_BUF_SIZE at hbuf
  obtain ⟨plan, _, _, hplan, _, _, _, _, hhdr, hout, hint⟩ := get_args_ok h
  obtain ⟨hlen, hsize, hoff, _⟩ := get_plan_counts hplan
  rw [← hint] at hlen hsize hoff
  refine ⟨hlen, ?_, ?_⟩
  · rw [hhdr, BitVec.toNat_ofNat, hsize]
    omega
  · have htake := lens_take_le c (c.args.zip m.internal) c.inbufs
    unfold total_size at hle
    rw [hout, hoff]
    omega

theorem put_outbufs_delivers (h : get_args c p = .ok m)
    (hwrap : total_size c m.internal < 2 ^ 64) (hrx : rsp.rxbuf + c.buf_size < 2 ^ 64)
    (hpra : Unchanged m rsp) (hdata : Written c m rsp mem data) :
    put_outbufs c m rsp mem = deliver c.user (wanted data c.inbufs (c.args.drop c.inbufs)) := by
  have hle := total_size_le h hwrap
  obtain ⟨hlen, _, hoff⟩ := get_args_counts h hwrap
  obtain ⟨_, hplaces, es, hs, happ, hes⟩ := get_args_writes h hwrap
  have hsplit := lens_append c ((c.args.zip m.internal).take c.inbufs)
    ((c.args.zip m.internal).drop c.inbufs)
  rw [List.take_append_drop] at hsplit
  unfold total_size at hle
  have hstart : (rsp.rxbuf + metalen c + m.outbufs_offset) % 2 ^ 64 =
      rsp.rxbuf + (metalen c + m.outbufs_offset) := by
    rw [Nat.mod_eq_of_lt (by omega), Nat.add_assoc]
  have hfst : ((c.args.zip m.internal).drop c.inbufs).map Prod.fst = c.args.drop c.inbufs := by
    rw [List.map_drop, List.map_fst_zip (by omega)]
  unfold put_outbufs
  rw [hstart, ← hfst]
  apply read_loop_delivers
  · omega
  · intro j b hb
    rw [List.getElem?_drop] at hb
    obtain ⟨hj, hbj⟩ := List.getElem?_eq_some_iff.mp hb
    have hjes : c.inbufs + j < es.length := hes.length_eq ▸ hj
    have hentry : EntryOf c b es[c.inbufs + j] := hbj ▸ hes.get hj hjes
    obtain ⟨x, hx, hrest⟩ := hentry
    have hat : m.writer.pra[c.inbufs + j]? = some (some x) := by
      rw [happ, List.getElem?_append_left hjes, List.getElem?_eq_getElem hjes, hx]
    exact ⟨x, by rw [hpra _ _ hat], hrest⟩
  · intro j a d place hb hplace hm
    rw [List.getElem?_drop] at hb
    rw [hoff, ← positions_drop, List.getElem?_drop, ← hplaces] at hplace
    exact hdata _ a d place (by omega) hb hplace hm

/-- The data of an out-buffer that is wanted has its length. -/
theorem wanted_length (h : get_args c p = .ok m) (hwrap : total_size c m.internal < 2 ^ 64)
    (hdata : Written c m rsp mem data) (htakes : Takes c) :
    ∀ x ∈ wanted data c.inbufs (c.args.drop c.inbufs), x.2.length ≤ c.user.takes x.1 := by
  intro x hx
  obtain ⟨j, a, ha, hm, rfl⟩ := mem_wanted hx
  rw [List.getElem?_drop] at ha
  obtain ⟨hlen, _⟩ := get_args_counts h hwrap
  obtain ⟨_, hplaces, _⟩ := get_args_writes h hwrap
  obtain ⟨hj, rfl⟩ := List.getElem?_eq_some_iff.mp ha
  have hzip : (c.args.zip m.internal)[c.inbufs + j]? =
      some (c.args[c.inbufs + j], m.internal[c.inbufs + j]) := by
    rw [List.getElem?_eq_getElem (by simp; omega), List.getElem_zip]
  have hplace : c.inbufs + j < m.writer.places.length := by
    rw [hplaces, positions_length]
    simp
    omega
  have hload := hdata _ _ _ _ (by omega) hzip (List.getElem?_eq_getElem hplace) hm
  have hn := htakes _ _ (by omega) ha
  have hdlen : (data (c.inbufs + j)).length = c.args[c.inbufs + j].len.toNat := by
    rw [← hload]
    simp [load]
  dsimp only
  omega

end answer

/-- A get_args that succeeds leaves `payload` at the end of the message, and put_args begins at the
first out-buffer. When the backend leaves the entries as they are, each out-buffer without a map
gets what the backend has written for it, as far as the memory of the user takes it. -/
theorem encoding_and_decoding_agree {c : Call} {p : Pool} {m : Message}
    (hok : get_args c p = .ok m) (hwrap : total_size c m.internal < 2 ^ 64) :
    m.writer.payload = m.hdr_len.toNat ∧
      m.outbufs_offset = payload_lens (m.writer.pra.take c.inbufs) ∧
      ∀ (rsp : Rsp) (mem : Mem) (data : Nat → List Byte), rsp.result = 0 →
        rsp.rxbuf + c.buf_size < 2 ^ 64 → Unchanged m rsp → Written c m rsp mem data →
        put_outbufs c m rsp mem = deliver c.user (wanted data c.inbufs (c.args.drop c.inbufs)) ∧
          (Takes c →
            wanted data c.inbufs (c.args.drop c.inbufs) <+: put_args c m (some rsp) mem) := by
  obtain ⟨hlen, hhdr, hoff⟩ := get_args_counts hok hwrap
  obtain ⟨hpay, _, es, hs, happ, hes⟩ := get_args_writes hok hwrap
  refine ⟨by rw [hpay, hhdr], ?_, ?_⟩
  · have hin : c.inbufs ≤ es.length := by
      have hinbufs := c.inbufs_le
      rw [← hes.length_eq, List.length_zip]
      omega
    have htake := lens_take_le c (c.args.zip m.internal) c.inbufs
    unfold total_size at hwrap
    rw [hoff, happ, List.take_append_of_le_length hin,
      payload_lens_eq (List.forall₂_take c.inbufs hes) (by omega)]
  · intro rsp mem data hres hrx hpra hdata
    have hput := put_outbufs_delivers hok hwrap hrx hpra hdata
    refine ⟨hput, fun htakes => ?_⟩
    rw [deliver_all (wanted_length hok hwrap hdata htakes)] at hput
    unfold put_args
    simp [hres, hput, List.append_assoc]

/-! ## A call with every kind of payload -/

/-- A map of two pieces, and one that the backend has already. -/
def freshMap : MapRef :=
  ⟨7, 1, 0x10000, 8192, 8192, 0, [⟨0x1000, 4096⟩, ⟨0x3000, 4096⟩], some 0x10000⟩
def knownMap : MapRef :=
  ⟨8, 2, 0x20000, 4096, 4096, VFASTRPC_MAP_ATTR_BUFFER_MAPPED, [⟨0x5000, 4096⟩], some 0x20000⟩

/-- An in-buffer with a map and one without, an empty out-buffer, one of `n` bytes, one with a map
and one of three bytes, and two handles of which the first has a map. -/
def mixedCall (n : BitVec 64) : Call :=
  { buf_size := 4096
    inbufs := 2
    args := [⟨0x10000, 100, false, some freshMap⟩, ⟨0x30000, 4, false, none⟩,
      ⟨0x31000, 0, false, some freshMap⟩, ⟨0x32000, n, false, none⟩,
      ⟨0x20000, 16, true, some knownMap⟩, ⟨0x33000, 3, false, none⟩]
    handles := [⟨0, 8192, some freshMap⟩, ⟨0, 0, none⟩]
    kcalloc := true
    txbuf := some 0x80000
    sgt := fun b => [⟨BitVec.ofNat 64 b.va, BitVec.ofNat 64 b.size⟩]
    user := ⟨fun x => some (BitVec.ofNat 8 x), fun _ => 65536⟩
    crc := none
    perf_dsp := none
    inbufs_le := by simp
    buf_size_le := page_le_max }

def freshPool : Pool := ⟨[], [], [some 0x60000]⟩

/-- The entries as get_args wrote them, in an rx buffer. -/
def echo (m : Message) :
    Rsp := ⟨0, 0x90000, fun i => (m.writer.pra.getD i none).getD ⟨0, 0, 0, 0, 0⟩⟩

/-- What the memory has for each out-buffer. -/
def contents (c : Call) (m : Message) (rsp : Rsp) (mem : Mem) (i : Nat) : List Byte :=
  match (c.args.zip m.internal)[i]?, m.writer.places[i]? with
  | some (a, d), some place => load mem (data_at d rsp place) a.len.toNat
  | _, _ => []

theorem unchanged_echo (m : Message) : Unchanged m (echo m) := by
  intro i e he
  simp [echo, he]

theorem written_contents (c : Call) (m : Message) (rsp : Rsp) (mem : Mem) :
    Written c m rsp mem (contents c m rsp mem) := by
  intro i a d place _ hzip hplace _
  simp [contents, hzip, hplace]

/-- The message that get_args writes for it. -/
def sent (n : BitVec 64) : Message :=
  match get_args (mixedCall n) freshPool with
  | .ok m => m
  | .error _ => ⟨0, 0, [], ⟨0, [], [], [], []⟩⟩

theorem takes_mixed {n : BitVec 64} (h : n.toNat ≤ 65536) : Takes (mixedCall n) := by
  intro i a _ ha
  change a.len.toNat ≤ 65536
  have hmem := List.mem_of_getElem? ha
  simp only [mixedCall, List.mem_cons, List.not_mem_nil, or_false] at hmem
  rcases hmem with rfl | rfl | rfl | rfl | rfl | rfl
  · decide
  · decide
  · decide
  · exact h
  · decide
  · decide

/-- In both layouts the out-buffers come back, each from its place. -/
theorem every_kind_of_payload_comes_back :
    (get_args (mixedCall 5) freshPool = .ok (sent 5) ∧
      (sent 5).internal[3]? = some none ∧ (sent 5).writer.payload = (sent 5).hdr_len.toNat ∧
      put_outbufs (mixedCall 5) (sent 5) (echo (sent 5)) (fun x => BitVec.ofNat 8 x) =
        ([(0x31000, []), (0x32000, [0x96, 0x97, 0x98, 0x99, 0x9a]), (0x33000, [0xbb, 0xbc, 0xbd])],
          true)) ∧
    get_args (mixedCall 8192) freshPool = .ok (sent 8192) ∧
      (sent 8192).internal[3]? = some (some ⟨0x60000, 8192⟩) ∧
      (sent 8192).writer.payload = (sent 8192).hdr_len.toNat ∧
      ∀ mem : Mem,
        [(0x31000, []), (0x32000, load mem 0x60000 8192), (0x33000, load mem 0x903e6 3)] <+:
          put_args (mixedCall 8192) (sent 8192) (some (echo (sent 8192))) mem := by
  have hinline : get_args (mixedCall 5) freshPool = .ok (sent 5) := by decide +kernel
  have hlarge : get_args (mixedCall 8192) freshPool = .ok (sent 8192) := by
    decide +kernel
  obtain ⟨hpay, _, hread⟩ := encoding_and_decoding_agree hinline (by decide +kernel)
  obtain ⟨hpay', _, hread'⟩ := encoding_and_decoding_agree hlarge (by decide +kernel)
  refine ⟨⟨hinline, by rfl, hpay, ?_⟩, hlarge, by rfl, hpay', fun mem => ?_⟩
  · rw [(hread (echo (sent 5)) _ _ rfl (by decide) (unchanged_echo _) (written_contents _ _ _ _)).1]
    decide +kernel
  · exact (hread' (echo (sent 8192)) mem _ rfl (by decide) (unchanged_echo _)
      (written_contents _ _ _ _)).2 (takes_mixed (by decide))

end virtual_fastrpc.virtio_message
