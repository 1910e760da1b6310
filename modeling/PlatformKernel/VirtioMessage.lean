-- The message of a virtio invoke as get_args writes it and put_args reads it:
-- the two loops that compute its size, the loops that write the entries of the
-- buffers and of the dma handles with their payloads, and the loop that finds
-- the out-buffers in the answer.
import PlatformKernel.VirtioMarshal

namespace virtual_fastrpc.virtio_message

open bytes buffers map_table
open virtio_marshal (SIZE_OF_MAPPING sizeof_virt_invoke_msg sizeof_virt_fastrpc_buf)

def MAX_FASTRPC_BUF_SIZE : Nat := 1024 * 1024 * 4
def VFASTRPC_BUF_ATTR_ION : BitVec 32 := 1
def VFASTRPC_BUF_ATTR_INTERNAL : BitVec 32 := 2
def VFASTRPC_BUF_ATTR_KEEP_MAP : BitVec 32 := 4
def VFASTRPC_MAP_ATTR_CACHED : BitVec 32 := 1

/-! ## The call -/

/-- One piece of a scatter list. -/
structure Sg where
  pv : BitVec 64
  len : BitVec 64
  deriving DecidableEq, Repr

/-- What get_args reads of a map, and the start of the vma that find_vma finds for it. -/
structure MapRef where
  fd : BitVec 32
  refs : BitVec 32
  va : BitVec 64
  len : BitVec 64
  size : BitVec 64
  attr : BitVec 32
  sgl : List Sg
  vm_start : Option (BitVec 64)
  deriving DecidableEq, Repr

def MapRef.mapped (m : MapRef) : Bool := m.attr &&& VFASTRPC_MAP_ATTR_BUFFER_MAPPED != 0

def get_size_of_mapping (m : MapRef) : Nat :=
  if m.mapped then SIZE_OF_MAPPING 0 else SIZE_OF_MAPPING m.sgl.length

/-- One buffer of an invoke, with the map that vfastrpc_mmap_create gives for its fd, if it has one,
and whether it has `FASTRPC_ATTR_KEEP_MAP`. -/
structure Arg where
  pv : BitVec 64
  len : BitVec 64
  keep : Bool
  created : Option MapRef
  deriving DecidableEq, Repr

/-- `maps[i]`: no map is made for an empty buffer. -/
def Arg.map (a : Arg) : Option MapRef := if a.len = 0 then none else a.created

structure Handle where
  pv : BitVec 64
  len : BitVec 64
  map : Option MapRef
  deriving DecidableEq, Repr

/-- An invoke, with its maps and all that the user and the kernel decide. The length of the scalars
is the number of its buffers and handles. -/
structure Call where
  buf_size : Nat
  inbufs : Nat
  args : List Arg
  handles : List Handle
  /-- The kernel has the memory for `ctx->desc`. -/
  kcalloc : Bool
  /-- The tx buffer that virt_alloc_msg finds for a message that is not too large. -/
  txbuf : Option Nat
  /-- The scatter list of an internal buffer. -/
  sgt : Buf → List Sg
  user : UserMem
  crc : Option Nat
  perf_dsp : Option Nat
  inbufs_le : inbufs ≤ args.length
  /-- The probe takes no larger size from the backend. -/
  buf_size_le : buf_size ≤ MAX_FASTRPC_BUF_SIZE

theorem page_le_max : PAGE_SIZE ≤ MAX_FASTRPC_BUF_SIZE := by decide

def get_order (size : Nat) : Nat :=
  let pages := (size - 1) / PAGE_SIZE
  if pages = 0 then 0 else pages.log2 + 1

/-- The memory of a tx buffer. -/
def Call.tx_size (c : Call) : Nat := PAGE_SIZE * 2 ^ get_order c.buf_size

def Call.total (c : Call) : Nat := c.args.length + c.handles.length

def metalen (c : Call) : Nat :=
  sizeof_virt_invoke_msg + c.total * sizeof_virt_fastrpc_buf + 8 * M_FDLIST + 4 * M_CRCLIST + 4 +
    8 * M_DSP_PERF_LIST

/-! ## The sizes -/

/-- `copylen`, a size_t, and `ctx->outbufs_offset`, an unsigned int. -/
structure Sizes where
  copylen : Nat
  outbufs_offset : Nat
  deriving DecidableEq, Repr

/-- The length of the buffer `i` is added. -/
def Sizes.add (c : Call) (i len : Nat) (s : Sizes) : Sizes :=
  ⟨(s.copylen + len) % 2 ^ 64,
    if i < c.inbufs then (s.outbufs_offset + len) % 2 ^ 32 else s.outbufs_offset⟩

/-- The loop over the buffers that takes their maps, from the buffer `i` on. -/
def copylen_loop (c : Call) : Nat → List Arg → Sizes → Sizes
  | _, [], s => s
  | i, a :: as, s =>
    if a.len = 0 then copylen_loop c (i + 1) as s
    else
      let len := match a.created with
        | some m => get_size_of_mapping m
        | none => a.len.toNat
      copylen_loop c (i + 1) as (s.add c i len)

/-- The loop over the dma handles. -/
def handlelen_loop : List Handle → Nat → Nat
  | [], handlelen => handlelen
  | h :: hs, handlelen =>
    match h.map with
    | some m => handlelen_loop hs ((handlelen + SIZE_OF_MAPPING m.sgl.length) % 2 ^ 64)
    | none => handlelen_loop hs handlelen

/-- An entry of `ctx->desc`. -/
inductive Desc
  | ION
  | NORMAL
  | INTERNAL (buf : Buf)
  deriving DecidableEq, Repr

def Desc.buf : Desc → Option Buf
  | INTERNAL buf => some buf
  | _ => none

/-- The loop that fills `ctx->desc`, from the buffer `i` on, and counts again. -/
def desc_loop (c : Call) :
    Nat → List Arg → Pool → Sizes → Option (Sizes × List Desc)
  | _, [], _, s => some (s, [])
  | i, a :: as, p, s =>
    match a.map with
    | some m =>
      (desc_loop c (i + 1) as p (s.add c i (get_size_of_mapping m))).map
        (fun r => (r.1, .ION :: r.2))
    | none =>
      if a.len.toNat < PAGE_SIZE then
        (desc_loop c (i + 1) as p (s.add c i a.len.toNat)).map (fun r => (r.1, .NORMAL :: r.2))
      else
        match vfastrpc_buf_alloc p (PAGE_ALIGN a.len.toNat % 2 ^ 64) .INTERNAL with
        | none => none
        | some (b, p) =>
          (desc_loop c (i + 1) as p (s.add c i (SIZE_OF_MAPPING (c.sgt b).length))).map
            (fun r => (r.1, .INTERNAL b :: r.2))

/-- Why get_args fails. The last one is a write behind the tx buffer, after which anything can
happen. -/
inductive Exit
  | desc | internal_buf | alloc_msg | no_vma | range | copy_from_user | overrun
  deriving DecidableEq, Repr

/-- What get_args has when it asks for a message. -/
structure Plan where
  size : Nat
  outbufs_offset : Nat
  /-- The internal buffer of each buffer that has one. -/
  internal : List (Option Buf)
  deriving DecidableEq, Repr

/-- The part of get_args that computes the size. -/
def get_plan (c : Call) (p : Pool) : Except Exit Plan :=
  let s := copylen_loop c 0 c.args ⟨0, 0⟩
  let handlelen := handlelen_loop c.handles 0
  let size := (metalen c + s.copylen + handlelen) % 2 ^ 64
  if size ≤ c.buf_size then .ok ⟨size, s.outbufs_offset, c.args.map (fun _ => none)⟩
  else if !c.kcalloc then .error .desc
  else
    match desc_loop c 0 c.args p ⟨0, 0⟩ with
    | none => .error .internal_buf
    | some (s, desc) =>
      .ok ⟨(metalen c + s.copylen + handlelen) % 2 ^ 64, s.outbufs_offset, desc.map Desc.buf⟩

/-- virt_alloc_msg: its argument is an int, which it compares as an unsigned int. -/
def virt_alloc_msg (c : Call) (size : Nat) : Option Nat :=
  if c.buf_size < size % 2 ^ 32 then none else c.txbuf

/-! ## The message -/

/-- `struct virt_fastrpc_buf`, without the crc. -/
structure VirtFastrpcBuf where
  attrs : BitVec 32
  pv : BitVec 64
  buf_len : BitVec 64
  offset : BitVec 64
  payload_len : BitVec 64
  deriving DecidableEq, Repr

/-- `struct virt_fastrpc_mapping`. -/
structure VirtFastrpcMapping where
  fd : BitVec 32
  refcount : BitVec 32
  va : BitVec 64
  len : BitVec 64
  attr : BitVec 32
  sgl : List Sg
  deriving DecidableEq, Repr

/-- Where get_args is in the message: `payload`, from the start of the message, the entries of `pra`
that it has written, the mappings and the in-buffers that it has copied. The `places` are the values
of `payload` at each buffer. -/
structure Writer where
  payload : Nat
  pra : List (Option VirtFastrpcBuf)
  mappings : List (Nat × VirtFastrpcMapping)
  copies : List (Nat × List Byte)
  places : List Nat
  deriving DecidableEq, Repr

def Writer.next (w : Writer) (entry : VirtFastrpcBuf) (n : Nat) : Writer :=
  { w with
    payload := (w.payload + n) % 2 ^ 64
    pra := w.pra ++ [some entry]
    places := w.places ++ [w.payload] }

/-- A mapping is written at `payload`. -/
def Writer.mapping (w : Writer) (c : Call) (m : VirtFastrpcMapping) : Except Exit Writer :=
  if c.tx_size < w.payload + SIZE_OF_MAPPING m.sgl.length then .error .overrun
  else .ok { w with mappings := w.mappings ++ [(w.payload, m)] }

/-- The bytes of an in-buffer are copied. -/
def Writer.copy (w : Writer) (c : Call) (a : Arg) (dst : Nat) : Except Exit Writer :=
  match copy_from_user c.user a.pv.toNat a.len.toNat with
  | none => .error .copy_from_user
  | some bs => .ok { w with copies := w.copies ++ [(dst, bs)] }

def Arg.attrs (a : Arg) : BitVec 32 :=
  if a.keep then VFASTRPC_BUF_ATTR_ION ||| VFASTRPC_BUF_ATTR_KEEP_MAP else VFASTRPC_BUF_ATTR_ION

/-- The offset of a buffer in its map, or the check that fails. -/
def map_offset (a : Arg) (m : MapRef) : Except Exit (BitVec 64) :=
  match m.vm_start with
  | none => .error .no_vma
  | some vm_start =>
    let offset := a.pv - vm_start
    if offset + a.len ≤ m.size then .ok offset else .error .range

/-- The mapping of a map, without its pieces when the backend has them. -/
def MapRef.mapping (m : MapRef) : VirtFastrpcMapping :=
  ⟨m.fd, m.refs, m.va, m.len, VFASTRPC_MAP_ATTR_CACHED, if m.mapped then [] else m.sgl⟩

def internal_mapping (c : Call) (b : Buf) : VirtFastrpcMapping :=
  ⟨-1, 1, BitVec.ofNat 64 b.va, BitVec.ofNat 64 b.size, VFASTRPC_MAP_ATTR_CACHED, c.sgt b⟩

/-- One turn of the loop that writes the buffers: a mapping for a map or for an internal buffer, and
else the bytes of the buffer. An out-buffer has its payload, but no bytes are written there. -/
def write_buf (c : Call) (txbuf i : Nat) (a : Arg) (d : Option Buf) (w : Writer) :
    Except Exit Writer :=
  match a.map with
  | some m => do
    let offset ← map_offset a m
    let n := get_size_of_mapping m
    let w ← w.mapping c m.mapping
    return w.next ⟨a.attrs, a.pv, a.len, offset, BitVec.ofNat 64 n⟩ n
  | none =>
    match d with
    | some b => do
      let n := SIZE_OF_MAPPING (c.sgt b).length
      let w ← w.mapping c (internal_mapping c b)
      let w ← if i < c.inbufs && a.len ≠ 0 then w.copy c a b.va else .ok w
      return w.next ⟨VFASTRPC_BUF_ATTR_INTERNAL, a.pv, a.len, 0, BitVec.ofNat 64 n⟩ n
    | none => do
      let w ←
        if i < c.inbufs && a.len ≠ 0 then
          if c.tx_size < w.payload + a.len.toNat then .error .overrun
          else w.copy c a (txbuf + w.payload)
        else .ok w
      return w.next ⟨0, a.pv, a.len, 0, a.len⟩ a.len.toNat

def write_loop (c : Call) (txbuf : Nat) : Nat → List (Arg × Option Buf) → Writer →
    Except Exit Writer
  | _, [], w => .ok w
  | i, (a, d) :: bufs, w => do
    let w ← write_buf c txbuf i a d w
    write_loop c txbuf (i + 1) bufs w

/-- One turn of the loop that writes the dma handles. -/
def write_handle (c : Call) (h : Handle) (w : Writer) : Except Exit Writer :=
  match h.map with
  | some m => do
    let n := SIZE_OF_MAPPING m.sgl.length
    let w ← w.mapping c ⟨m.fd, m.refs, m.va, h.len, VFASTRPC_MAP_ATTR_CACHED, m.sgl⟩
    return { w with
      payload := (w.payload + n) % 2 ^ 64
      pra := w.pra ++ [some ⟨VFASTRPC_BUF_ATTR_ION, 0, h.len, h.pv, BitVec.ofNat 64 n⟩] }
  | none => .ok { w with pra := w.pra ++ [none] }

def write_handles (c : Call) : List Handle → Writer → Except Exit Writer
  | [], w => .ok w
  | h :: hs, w => do
    let w ← write_handle c h w
    write_handles c hs w

/-- What get_args leaves: `hdr.len`, `ctx->outbufs_offset`, the internal buffers and the message. -/
structure Message where
  hdr_len : BitVec 32
  outbufs_offset : Nat
  internal : List (Option Buf)
  writer : Writer
  deriving DecidableEq, Repr

/-- get_args, with the maps as they are. -/
def get_args (c : Call) (p : Pool) : Except Exit Message :=
  match get_plan c p with
  | .error e => .error e
  | .ok plan =>
    match virt_alloc_msg c plan.size with
    | none => .error .alloc_msg
    | some txbuf =>
      if c.tx_size < metalen c then .error .overrun
      else
        match write_loop c txbuf 0 (c.args.zip plan.internal) ⟨metalen c, [], [], [], []⟩ with
        | .error e => .error e
        | .ok w =>
          match write_handles c c.handles w with
          | .error e => .error e
          | .ok w => .ok ⟨BitVec.ofNat 32 plan.size, plan.outbufs_offset, plan.internal, w⟩

/-! ## The answer -/

/-- The answer, as put_args reads it: its result, its place, and its entries. -/
structure Rsp where
  result : BitVec 32
  rxbuf : Nat
  pra : Nat → VirtFastrpcBuf

/-- The loop of put_args over the out-buffers, from the buffer `i` on: what it writes to the user,
and whether it comes to the end. -/
def read_loop (c : Call) (mem : Mem) (rsp : Rsp) :
    Nat → List (Arg × Option Buf) → Nat → List (Nat × List Byte) × Bool
  | _, [], _ => ([], true)
  | i, (a, d) :: bufs, payload =>
    let entry := rsp.pra i
    let next := (payload + entry.payload_len.toNat) % 2 ^ 64
    if a.map.isSome then read_loop c mem rsp (i + 1) bufs next
    else
      let src := (d.map Buf.va).getD payload
      let len := if d.isSome then a.len.toNat else entry.buf_len.toNat
      match copy_to_user c.user mem a.pv.toNat src len with
      | (x, true) =>
        let rest := read_loop c mem rsp (i + 1) bufs next
        (x :: rest.1, rest.2)
      | (x, false) => ([x], false)

/-- The out-buffers in put_args. -/
def put_outbufs (c : Call) (m : Message) (rsp : Rsp) (mem : Mem) : List (Nat × List Byte) × Bool :=
  read_loop c mem rsp c.inbufs ((c.args.zip m.internal).drop c.inbufs)
    ((rsp.rxbuf + metalen c + m.outbufs_offset) % 2 ^ 64)

/-- put_args: its writes to the memory of the user. -/
def put_args (c : Call) (m : Message) (rsp : Option Rsp) (mem : Mem) : List (Nat × List Byte) :=
  match rsp with
  | none => []
  | some rsp =>
    if rsp.result ≠ 0 then []
    else
      match put_outbufs c m rsp mem with
      | (ws, false) => ws
      | (ws, true) =>
        let crclist := rsp.rxbuf + sizeof_virt_invoke_msg + c.total * sizeof_virt_fastrpc_buf +
          8 * M_FDLIST
        let perf_dsp_list := crclist + 4 * M_CRCLIST + 4
        let crc := c.crc.toList.map (fun u => (copy_to_user c.user mem u crclist (4 * M_CRCLIST)).1)
        let perf := c.perf_dsp.toList.map
          (fun u => (copy_to_user c.user mem u perf_dsp_list (8 * M_DSP_PERF_LIST)).1)
        ws ++ crc ++ perf

end virtual_fastrpc.virtio_message
