-- The two models of the marshalling of a virtio invoke agree. The one of
-- VirtioMarshal keeps the internal buffers and the copies of the in-buffers, and
-- says nothing of the entries and mappings of the message: a get_args of
-- VirtioMessage that succeeds leaves these buffers and these copies, and put_args
-- writes the same bytes to the user.
import PlatformKernel.VirtioRoundTrip
import Mathlib.Data.List.GetD

namespace virtual_fastrpc.virtio_message

open bytes buffers
open virtio_marshal (SIZE_OF_MAPPING)

/-! ## The call without its maps -/

/-- The checks of get_args find the buffer in its map. -/
def Arg.rangeOk (a : Arg) : Bool :=
  match a.map with
  | some m => (map_offset a m).toBool
  | none => true

def Arg.marshal (a : Arg) : virtio_marshal.Arg :=
  ⟨a.pv, a.len, a.map.map get_size_of_mapping, a.rangeOk⟩

def Call.marshal (c : Call) : virtio_marshal.Call where
  buf_size := c.buf_size
  inbufs := c.inbufs
  args := c.args.map Arg.marshal
  handles := c.handles.length
  handlelen := hlens c.handles
  kcalloc := c.kcalloc
  txbuf := c.txbuf
  nents := fun b => (c.sgt b).length
  user := c.user
  crc := c.crc
  perf_dsp := c.perf_dsp

def Rsp.marshal (rsp : Rsp) : virtio_marshal.Rsp :=
  ⟨rsp.result, rsp.rxbuf, fun i => (rsp.pra i).buf_len, fun i => (rsp.pra i).payload_len⟩

def Message.marshal (m : Message) : virtio_marshal.Layout := ⟨m.internal, m.writer.copies⟩

section agree

variable {c : Call} {p : Pool} {m : Message}

theorem metalen_marshal (c : Call) : virtio_marshal.metalen c.marshal = metalen c := by
  simp [virtio_marshal.metalen, metalen, Call.marshal, Call.total]

theorem payload_len_marshal (c : Call) (a : Arg) (d : Option Buf) :
    virtio_marshal.payload_len c.marshal a.marshal d = plen c a d := by
  unfold virtio_marshal.payload_len plen Arg.marshal
  rcases a.map with _ | m
  · rcases d with _ | b <;> rfl
  · rfl

theorem zip_marshal (as : List Arg) (desc : List (Option Buf)) :
    (as.map Arg.marshal).zip desc = (as.zip desc).map (Prod.map Arg.marshal id) := by
  rw [List.zip_map_left]

theorem payloads_marshal (c : Call) (bufs : List (Arg × Option Buf)) :
    virtio_marshal.payloads c.marshal (bufs.map (Prod.map Arg.marshal id)) = lens c bufs := by
  unfold virtio_marshal.payloads lens
  rw [List.map_map]
  congr 1
  apply List.map_congr_left
  intro b _
  exact payload_len_marshal c b.1 b.2

theorem size_marshal (c : Call) (desc : List (Option Buf)) :
    virtio_marshal.size c.marshal desc = total_size c desc % 2 ^ 64 := by
  unfold virtio_marshal.size total_size
  rw [metalen_marshal, show c.marshal.args = c.args.map Arg.marshal from rfl, zip_marshal,
    payloads_marshal]
  rfl

theorem outbufs_offset_marshal (c : Call) (desc : List (Option Buf)) :
    virtio_marshal.outbufs_offset c.marshal desc =
      lens c ((c.args.zip desc).take c.inbufs) % 2 ^ 32 := by
  unfold virtio_marshal.outbufs_offset
  rw [show c.marshal.args = c.args.map Arg.marshal from rfl, zip_marshal, ← List.map_take,
    payloads_marshal]
  rfl

/-! ## get_args -/

/-- Both loops take the same internal buffers. -/
theorem alloc_desc_marshal (i : Nat) (as : List Arg) (p : Pool) (s : Sizes) :
    virtio_marshal.alloc_desc p (as.map Arg.marshal) =
      (desc_loop c i as p s).map (fun r => r.2.map Desc.buf) := by
  induction as generalizing i p s with
  | nil => rfl
  | cons a as ih =>
    rw [List.map_cons]
    unfold virtio_marshal.alloc_desc desc_loop
    rcases hm : a.map with _ | m
    · by_cases hsmall : a.len.toNat < PAGE_SIZE
      · rw [if_pos (by simp [Arg.marshal, hsmall])]
        simp only [hsmall, if_true]
        rw [ih (i + 1) p (s.add c i a.len.toNat), Option.map_map, Option.map_map]
        rfl
      · rw [if_neg (by simp [Arg.marshal, hm, hsmall])]
        simp only [hsmall, if_false]
        rw [show a.marshal.len = a.len from rfl]
        rcases vfastrpc_buf_alloc p (PAGE_ALIGN a.len.toNat % 2 ^ 64) .INTERNAL with _ | ⟨b, p'⟩
        · rfl
        · dsimp only
          rw [ih (i + 1) p' (s.add c i (SIZE_OF_MAPPING (c.sgt b).length)), Option.map_map,
            Option.map_map]
          rfl
    · rw [if_pos (by simp [Arg.marshal, hm])]
      dsimp only
      rw [ih (i + 1) p (s.add c i (get_size_of_mapping m)), Option.map_map, Option.map_map]
      rfl

theorem get_desc_marshal {plan : Plan} (h : get_plan c p = .ok plan) :
    virtio_marshal.get_desc c.marshal p = .ok plan.internal := by
  have hplain : c.marshal.args.map (fun _ => (none : Option Buf)) = c.args.map (fun _ => none) :=
    List.map_map
  have hsize : (metalen c + (copylen_loop c 0 c.args ⟨0, 0⟩).copylen + hlens c.handles % 2 ^ 64) %
      2 ^ 64 = virtio_marshal.size c.marshal (c.args.map (fun _ => none)) := by
    obtain ⟨hcopy, _⟩ := copylen_loop_counts (c := c) (i := 0) (s := ⟨0, 0⟩) c.args (by simp)
    rw [size_marshal, total_size, zip_without_bufs, hcopy, Nat.zero_add]
    omega
  unfold get_plan at h
  unfold virtio_marshal.get_desc
  dsimp only at h ⊢
  rw [handlelen_loop_eq c.handles (by omega), Nat.zero_add, hsize] at h
  rw [hplain]
  split at h
  · rename_i hfit
    cases h
    exact if_pos hfit
  rename_i hbig
  rw [if_neg (show ¬ virtio_marshal.size c.marshal _ ≤ c.marshal.buf_size from hbig)]
  split at h
  · cases h
  rename_i hmem
  rw [if_neg (show ¬ (!c.marshal.kcalloc) = true from hmem)]
  split at h
  · cases h
  rename_i s desc hrun
  cases h
  rw [show c.marshal.args = c.args.map Arg.marshal from rfl,
    alloc_desc_marshal (c := c) 0 c.args p ⟨0, 0⟩, hrun]
  rfl

theorem mapping_copies {x : VirtFastrpcMapping} {w w' : Writer} (h : w.mapping c x = .ok w') :
    w'.copies = w.copies := by
  unfold Writer.mapping at h
  split at h
  · cases h
  · cases h
    rfl

theorem write_handles_copies {hs : List Handle} {w w' : Writer}
    (h : write_handles c hs w = .ok w') : w'.copies = w.copies := by
  induction hs generalizing w with
  | nil =>
    cases h
    rfl
  | cons x hs ih =>
    simp only [write_handles] at h
    obtain ⟨w₁, hw₁, h⟩ := bind_ok h
    refine (ih h).trans ?_
    unfold write_handle at hw₁
    split at hw₁
    · obtain ⟨w₂, hw₂, he⟩ := bind_ok hw₁
      cases he
      exact (mapping_copies hw₂ : w₂.copies = w.copies)
    · cases hw₁
      rfl

/-- What a turn of the loop that writes the buffers copies. -/
theorem write_buf_copies {txbuf i : Nat} {a : Arg} {d : Option Buf} {w w' : Writer}
    (h : write_buf c txbuf i a d w = .ok w') : a.rangeOk = true ∧
      if a.map = none ∧ i < c.inbufs ∧ a.len ≠ 0 then
        ∃ bs, copy_from_user c.user a.pv.toNat a.len.toNat = some bs ∧
          w'.copies = w.copies ++ [((d.map Buf.va).getD (txbuf + w.payload), bs)] ∧
          (d = none → w.payload + a.len.toNat ≤ c.tx_size)
      else w'.copies = w.copies := by
  have hmapping {v v' : Writer} {x : VirtFastrpcMapping} (hv : v.mapping c x = .ok v') :=
    mapping_copies hv
  have hcopy {v v' : Writer} {dst : Nat} (hv : v.copy c a dst = .ok v') :
      ∃ bs, copy_from_user c.user a.pv.toNat a.len.toNat = some bs ∧
        v'.copies = v.copies ++ [(dst, bs)] := by
    unfold Writer.copy at hv
    split at hv
    · cases hv
    · rename_i bs hbs
      cases hv
      exact ⟨bs, hbs, rfl⟩
  unfold write_buf at h
  unfold Arg.rangeOk
  rcases hm : a.map with _ | m
  · refine ⟨rfl, ?_⟩
    simp only [hm] at h
    rcases d with _ | b
    · simp only [Bool.and_eq_true, decide_eq_true_eq] at h
      split at h
      · rename_i hin
        split at h
        · cases h
        · rename_i hroom
          obtain ⟨w₁, hw₁, h⟩ := bind_ok h
          cases h
          obtain ⟨bs, hbs, hcopies⟩ := hcopy hw₁
          rw [if_pos ⟨rfl, hin⟩]
          exact ⟨bs, hbs, hcopies, fun _ => Nat.le_of_not_lt hroom⟩
      · rename_i hin
        cases h
        rw [if_neg (fun hx => hin hx.2)]
        rfl
    · simp only [Bool.and_eq_true, decide_eq_true_eq] at h
      obtain ⟨w₁, hw₁, h⟩ := bind_ok h
      split at h
      · rename_i hin
        obtain ⟨w₂, hw₂, h⟩ := bind_ok h
        cases h
        obtain ⟨bs, hbs, hcopies⟩ := hcopy hw₂
        rw [if_pos ⟨rfl, hin⟩]
        refine ⟨bs, hbs, ?_, fun hnone => absurd hnone (by simp)⟩
        rw [← hmapping hw₁]
        exact hcopies
      · rename_i hin
        cases h
        rw [if_neg (fun hx => hin hx.2)]
        exact (hmapping hw₁ : w₁.copies = w.copies)
  · simp only [hm] at h
    obtain ⟨offset, hoff, h⟩ := bind_ok h
    obtain ⟨w₁, hw₁, h⟩ := bind_ok h
    cases h
    rw [if_neg (by simp)]
    exact ⟨by simp [hoff, Except.toBool], (hmapping hw₁ : w₁.copies = w.copies)⟩

/-- The two loops that fill the message make the same copies. The one goes through the addresses,
the other through the places in the message. -/
theorem copy_loop_marshal {txbuf i payload : Nat} {bufs : List (Arg × Option Buf)} {w w' : Writer}
    (hplace : txbuf + c.tx_size ≤ 2 ^ 64)
    (hpay : payload = txbuf + w.payload ∨ payload = (txbuf + w.payload) % 2 ^ 64)
    (h : write_loop c txbuf i bufs w = .ok w') :
    virtio_marshal.copy_loop c.marshal i (bufs.map (Prod.map Arg.marshal id)) payload w.copies =
      .ok w'.copies := by
  induction bufs generalizing i payload w with
  | nil =>
    cases h
    rfl
  | cons b bufs ih =>
    obtain ⟨a, d⟩ := b
    simp only [write_loop] at h
    obtain ⟨w₁, hw₁, h⟩ := bind_ok h
    obtain ⟨hrange, hcopies⟩ := write_buf_copies hw₁
    have hnext : (payload + virtio_marshal.payload_len c.marshal a.marshal d) % 2 ^ 64 =
        (txbuf + w₁.payload) % 2 ^ 64 := by
      have hpayload : w₁.payload = (w.payload + plen c a d) % 2 ^ 64 :=
        (write_buf_wrote hw₁).payload
      rw [payload_len_marshal, hpayload]
      omega
    have hrest := ih (Or.inr hnext) h
    rw [List.map_cons, Prod.map_apply, id, virtio_marshal.copy_loop]
    have hnorange : (a.marshal.mapping.isSome && !a.marshal.range_ok) = false := by
      rw [show a.marshal.range_ok = a.rangeOk from rfl, hrange]
      simp
    rw [if_neg (by simp [hnorange])]
    split at hcopies
    · rename_i hin
      obtain ⟨hnone, hi, hne⟩ := hin
      obtain ⟨bs, hbs, hw, hroom⟩ := hcopies
      have hcond : (a.marshal.mapping.isNone && decide (i < c.marshal.inbufs) &&
          decide (a.marshal.len ≠ 0)) = true := by
        simpa [Arg.marshal, Call.marshal, hnone, hi] using hne
      have hdst : (d.map Buf.va).getD payload = (d.map Buf.va).getD (txbuf + w.payload) := by
        rcases d with _ | b
        · have hlen : 0 < a.len.toNat := by
            rcases Nat.eq_zero_or_pos a.len.toNat with h0 | hpos
            · exact absurd (BitVec.eq_of_toNat_eq h0) hne
            · exact hpos
          have := hroom rfl
          simp only [Option.map_none, Option.getD_none]
          omega
        · rfl
      rw [if_pos hcond]
      rw [show copy_from_user c.marshal.user a.marshal.pv.toNat a.marshal.len.toNat = some bs
        from hbs]
      dsimp only
      rw [hdst, ← hw]
      exact hrest
    · rename_i hin
      have hcond : ¬ (a.marshal.mapping.isNone && decide (i < c.marshal.inbufs) &&
          decide (a.marshal.len ≠ 0)) = true := by
        intro hx
        simp only [Bool.and_eq_true, decide_eq_true_eq, Option.isNone_iff_eq_none] at hx
        exact hin ⟨Option.map_eq_none_iff.mp hx.1.1, hx.1.2, hx.2⟩
      rw [if_neg hcond, ← hcopies]
      exact hrest

/-- A get_args that writes its message leaves the internal buffers and the copies of
VirtioMarshal. -/
theorem get_args_marshal (hplace : ∀ txbuf, c.txbuf = some txbuf → txbuf + c.tx_size ≤ 2 ^ 64)
    (h : get_args c p = .ok m) : virtio_marshal.get_args c.marshal p = .ok m.marshal := by
  unfold get_args at h
  split at h
  · cases h
  rename_i plan hplan
  split at h
  · cases h
  rename_i txbuf htx
  split at h
  · cases h
  split at h
  · cases h
  rename_i w hw
  split at h
  · cases h
  rename_i w' hw'
  cases h
  have hcopies := copy_loop_marshal (hplace txbuf ?_) (Or.inl rfl) hw
  · unfold virtio_marshal.get_args
    rw [get_desc_marshal hplan]
    dsimp only
    obtain ⟨_, hsize, _⟩ := get_plan_counts hplan
    unfold virt_alloc_msg at htx
    split at htx
    · cases htx
    rename_i hfit
    rw [size_marshal, ← hsize, if_neg (show ¬ c.marshal.buf_size < _ from hfit)]
    rw [show c.marshal.txbuf = some txbuf from htx]
    dsimp only
    rw [show c.marshal.args = c.args.map Arg.marshal from rfl, zip_marshal,
      metalen_marshal, hcopies, Message.marshal, write_handles_copies hw']
  · unfold virt_alloc_msg at htx
    split at htx
    · cases htx
    · exact htx

/-! ## put_args -/

theorem arg_marshal {i : Nat} (hi : i < c.args.length) :
    c.marshal.arg i = (c.args[i]).marshal := by
  unfold virtio_marshal.Call.arg Call.marshal
  rw [List.getD_eq_getElem _ _ (by simpa using hi), List.getElem_map]

/-- The two loops over the out-buffers read the same bytes. -/
theorem read_loop_marshal (hlen : m.internal.length = c.args.length) (rsp : Rsp) (mem : Mem)
    (n : Nat) {i : Nat} (hi : i + n = c.args.length) (hout : c.inbufs ≤ i) :
    read_loop c mem rsp i ((c.args.zip m.internal).drop i)
        (virtio_marshal.payload_at c.marshal m.marshal rsp.marshal (i - c.inbufs)) =
      put_bufs c.user mem
        ((List.range' i n).map (virtio_marshal.outBuf c.marshal m.marshal rsp.marshal)) := by
  induction n generalizing i with
  | zero =>
    rw [List.drop_of_length_le (by simp [hlen]; omega)]
    rfl
  | succ n ih =>
    have hlt : i < c.args.length := by omega
    have hrest := ih (i := i + 1) (by omega) (by omega)
    rw [List.drop_eq_getElem_cons (by simp [hlen, hlt]), List.getElem_zip, List.range'_succ,
      List.map_cons]
    have hnext : (virtio_marshal.payload_at c.marshal m.marshal rsp.marshal (i - c.inbufs) +
        (rsp.pra i).payload_len.toNat) % 2 ^ 64 =
          virtio_marshal.payload_at c.marshal m.marshal rsp.marshal (i + 1 - c.inbufs) := by
      have hindex : c.marshal.inbufs + (i - c.inbufs) = i := Nat.add_sub_cancel' hout
      have hpay : rsp.marshal.payload_len i = (rsp.pra i).payload_len := rfl
      rw [Nat.sub_add_comm hout, virtio_marshal.payload_at, hindex, hpay]
    have hinternal : m.marshal.internal i = m.internal[i] := by
      unfold virtio_marshal.Layout.internal Message.marshal
      rw [List.getD_eq_getElem _ _ (hlen ▸ hlt)]
    have hout : virtio_marshal.outBuf c.marshal m.marshal rsp.marshal i =
        if (c.args[i]).map.isSome then none
        else some ((c.args[i]).pv.toNat,
          ((m.internal[i]).map Buf.va).getD
            (virtio_marshal.payload_at c.marshal m.marshal rsp.marshal (i - c.inbufs)),
          if (m.internal[i]).isSome then (c.args[i]).len.toNat else (rsp.pra i).buf_len.toNat) := by
      unfold virtio_marshal.outBuf virtio_marshal.source virtio_marshal.source_len
      rw [arg_marshal hlt, hinternal]
      rcases m.internal[i] with _ | b
        <;> simp only [Arg.marshal, Rsp.marshal, Option.isSome_map] <;> rfl
    rw [hout, read_loop]
    dsimp only
    rw [hnext, hrest]
    by_cases hmap : (c.args[i]).map.isSome
    · simp only [hmap, if_true, put_bufs]
    · generalize ((m.internal[i]).map Buf.va).getD _ = src,
        (if (m.internal[i]).isSome then (c.args[i]).len.toNat else (rsp.pra i).buf_len.toNat) = len
      rcases hcopy : copy_to_user c.user mem (c.args[i]).pv.toNat src len with ⟨x, _ | _⟩ <;>
        simp only [hmap, if_false, put_bufs, hcopy, Bool.false_eq_true]

/-- Both models of put_args write the same to the user. -/
theorem put_args_marshal (h : get_args c p = .ok m) (rsp : Option Rsp) (mem : Mem) :
    put_args c m rsp mem =
      virtio_marshal.put_args c.marshal m.marshal (rsp.map Rsp.marshal) mem := by
  rcases rsp with _ | rsp
  · rfl
  obtain ⟨plan, _, _, hplan, _, _, _, _, _, hoff, hint⟩ := get_args_ok h
  obtain ⟨hlen, _, hplanoff, _⟩ := get_plan_counts hplan
  rw [← hint] at hlen hplanoff
  have hstart : (rsp.rxbuf + metalen c + m.outbufs_offset) % 2 ^ 64 =
      virtio_marshal.payload_at c.marshal m.marshal rsp.marshal (c.inbufs - c.inbufs) := by
    rw [Nat.sub_self, virtio_marshal.payload_at, metalen_marshal,
      show m.marshal.desc = m.internal from rfl, outbufs_offset_marshal, ← hplanoff, ← hoff]
    rfl
  have hbufs : put_outbufs c m rsp mem = put_bufs c.marshal.user mem
      (virtio_marshal.outBufs c.marshal m.marshal rsp.marshal) := by
    unfold put_outbufs virtio_marshal.outBufs
    rw [hstart, read_loop_marshal hlen rsp mem (c.args.length - c.inbufs)
      (Nat.add_sub_cancel' c.inbufs_le) (Nat.le_refl _)]
    simp [Call.marshal]
  have htotal : c.marshal.args.length + c.marshal.handles = c.total := by
    simp [Call.marshal, Call.total]
  simp only [put_args, virtio_marshal.put_args, Option.map_some, hbufs, htotal]
  rfl

end agree

end virtual_fastrpc.virtio_message
