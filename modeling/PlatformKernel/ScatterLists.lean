-- The scatter lists in the messages that map memory. A list that has no room in a message goes
-- into a buffer of its own, and the message carries the scatter list of that buffer. Both forms
-- are read back here as the structures of the messages define them.
import PlatformKernel.Buffers
import PlatformKernel.Lib.Words
import PlatformKernel.Lib.Vmap

namespace virtual_fastrpc.scatter_lists

open bytes words buffers

def VFASTRPC_MAP_ATTR_CACHED : BitVec 32 := 1
def VFASTRPC_MAP_ATTR_INTERNAL_MAP : BitVec 32 := 2
def VIRTIO_FASTRPC_CMD_MEM_MAP : BitVec 32 := 9
def VIRTIO_FASTRPC_CMD_SMMU_MAP : BitVec 32 := 11
def ENOMEM : Int := 12
def EFAULT : Int := 14

/-! ## Scatter lists -/

abbrev Frame := BitVec 52

def page_to_phys (page : Frame) : BitVec 64 := page.setWidth 64 <<< 12

/-- `struct scatterlist`. -/
structure Scatter where
  page : Frame
  offset : BitVec 32
  length : BitVec 32
  dma_address : BitVec 64
  dma_length : BitVec 32
  deriving DecidableEq, Repr

/-- `struct virt_fastrpc_sgl`. -/
structure Sgl where
  pv : BitVec 64
  len : BitVec 64
  deriving DecidableEq, Repr

/-- The entry for the DMA mapping of a piece. -/
def Scatter.dma (s : Scatter) : Sgl := ⟨s.dma_address, s.dma_length.setWidth 64⟩

/-- The entry for the memory of a piece. -/
def Scatter.phys (s : Scatter) : Sgl := ⟨page_to_phys s.page, s.length.setWidth 64⟩

/-- Where the memory of a piece starts, which may be behind the start of its page. -/
def Scatter.sg_phys (s : Scatter) : BitVec 64 := page_to_phys s.page + s.offset.setWidth 64

/-- The entry of virt_smmu_map, for pieces that may have no DMA mapping. -/
def Scatter.mapped (s : Scatter) : Sgl := if s.dma_length ≠ 0 then s.dma else s.phys

def Sgl.bytes (e : Sgl) : List Byte := toLE 8 e.pv.toNat ++ toLE 8 e.len.toNat

def sgl_bytes (sgl : List Sgl) : List Byte := sgl.flatMap Sgl.bytes

/-- `struct virt_fastrpc_sgtable`. -/
def sgtable_bytes (nents : BitVec 32) (sgl : List Sgl) : List Byte :=
  toLE 4 nents.toNat ++ sgl_bytes sgl

def sizeof_sgl : Nat := 16
def sizeof_sgtable : Nat := 4

/-! ## Buffers -/

/-- A buffer with its pages and the scatter list that is made from them. -/
structure Buffer where
  size : Nat
  pages : List Frame
  sgt : List Scatter
  count : pages.length * PAGE_SIZE = PAGE_ALIGN size
  distinct : pages.Nodup
  few : sgt.length ≤ pages.length
  describes : sgt.flatMap (fun s => List.range' s.phys.pv.toNat s.length.toNat) =
    (pages.flatMap (fun p => List.range' (page_to_phys p).toNat PAGE_SIZE)).take size
  deriving DecidableEq

def Buffer.frames (b : Buffer) : List Nat := b.pages.map BitVec.toNat

/-- The memory after a write to `buf->va`. -/
def Buffer.put (b : Buffer) (mem : Mem) (bs : List Byte) : Mem :=
  vmap.put PAGE_SIZE b.frames mem 0 bs

/-- The entry of the second level. -/
def Buffer.sgl (b : Buffer) : List Sgl := b.sgt.map Scatter.phys

/-! ## Messages -/

structure Hdr where
  pid : BitVec 32
  tid : BitVec 32
  cid : BitVec 32
  cmd : BitVec 32
  len : BitVec 32
  msgid : BitVec 16
  result : BitVec 32
  deriving DecidableEq, Repr

def Hdr.bytes (h : Hdr) : List Byte :=
  toLE 4 h.pid.toNat ++ toLE 4 h.tid.toNat ++ toLE 4 h.cid.toNat ++ toLE 4 h.cmd.toNat ++
    toLE 4 h.len.toNat ++ toLE 2 h.msgid.toNat ++ toLE 4 h.result.toNat

/-- `struct virt_smmu_map_msg` with one `struct fastrpc_smmu_map`. -/
structure SmmuMapMsg where
  hdr : Hdr
  nents : BitVec 32
  map_attrs : BitVec 32
  map_nents : BitVec 32
  map_da : BitVec 64
  sgl : List Sgl
  deriving DecidableEq, Repr

def SmmuMapMsg.bytes (m : SmmuMapMsg) : List Byte :=
  m.hdr.bytes ++ toLE 4 m.nents.toNat ++ toLE 4 m.map_attrs.toNat ++ toLE 4 m.map_nents.toNat ++
    toLE 8 m.map_da.toNat ++ sgl_bytes m.sgl

def sizeof_smmu_map_msg : Nat := 30
def sizeof_smmu_map : Nat := 16

/-- `struct virt_fastrpc_mapping`, without its scatter list. -/
structure Mapping where
  fd : BitVec 32
  refcount : BitVec 32
  va : BitVec 64
  len : BitVec 64
  attr : BitVec 32
  nents : BitVec 32
  deriving DecidableEq, Repr

def Mapping.bytes (m : Mapping) : List Byte :=
  toLE 4 m.fd.toNat ++ toLE 4 m.refcount.toNat ++ toLE 8 m.va.toNat ++ toLE 8 m.len.toNat ++
    toLE 4 m.attr.toNat ++ toLE 4 m.nents.toNat

structure MemMapMsg where
  hdr : Hdr
  offset : BitVec 32
  flags : BitVec 32
  attrs : BitVec 32
  raddr : BitVec 64
  mmap : Mapping
  sgl : List Sgl
  deriving DecidableEq, Repr

def MemMapMsg.bytes (m : MemMapMsg) : List Byte :=
  m.hdr.bytes ++ toLE 4 m.offset.toNat ++ toLE 4 m.flags.toNat ++ toLE 4 m.attrs.toNat ++
    toLE 8 m.raddr.toNat ++ m.mmap.bytes ++ sgl_bytes m.sgl

def sizeof_mem_map_msg : Nat := 78

/-! ## The senders -/

/-- What the kernel and the backend answer: the slot and the tx buffer of a message, the result of
sending it, and what comes back. -/
structure Env where
  buf_size : BitVec 32
  pid : BitVec 32
  tid : BitVec 32
  cid : BitVec 32
  msgid : Option (BitVec 16)
  txbuf_send : Int
  rsp : Option (Int × BitVec 64)

/-- A message, with the memory when it is sent. -/
structure Sent where
  bytes : List Byte
  mem : Mem

/-- How a call ends: what it returns and writes back, what it sent, the buffer it took, and the
buffers it released. -/
structure Outcome where
  err : Int
  addr : Option (BitVec 64)
  sent : Option Sent
  taken : Option Buffer
  released : List Buffer

/-- The bits of an int. -/
def int (n : Nat) : Nat := n % 2 ^ 32

/-- An int as a size_t. -/
def size_t (i : Nat) : Nat := if i < 2 ^ 31 then i else i + (2 ^ 64 - 2 ^ 32)

def virt_alloc_msg (e : Env) (size : Nat) : Option (BitVec 16) :=
  if e.buf_size.toNat < size then none else e.msgid

/-- The end of both senders, at `bail`. -/
def bail (err : Int) (addr : Option (BitVec 64)) (sent : Option Sent) (buf : Option Buffer) :
    Outcome :=
  ⟨err, addr, sent, buf, buf.toList⟩

/-- What virt_smmu_map makes of the answer to its message: its error, and `*da`. -/
def smmu_reply (e : Env) : Int × Option (BitVec 64) :=
  if e.txbuf_send ≠ 0 then (e.txbuf_send, none)
  else
    match e.rsp with
    | none => (0, none)
    | some (result, da) =>
      if result ≠ 0 then (result, none) else if da = 0 then (-EFAULT, none) else (0, some da)

/-- From the message on, virt_smmu_map. -/
def smmu_send (e : Env) (mem : Mem) (intmap : Option Buffer) (lattr nents : BitVec 32)
    (sgl : List Sgl) (total_size : Nat) : Outcome :=
  match virt_alloc_msg e total_size with
  | none => bail (-ENOMEM) none none intmap
  | some msgid =>
    let vmsg : SmmuMapMsg :=
      { hdr := ⟨e.pid, e.tid, e.cid, VIRTIO_FASTRPC_CMD_SMMU_MAP, .ofNat 32 total_size, msgid, -1⟩
        nents := 1
        map_attrs := lattr
        map_nents := nents
        map_da := 0
        sgl := sgl }
    bail (smmu_reply e).1 (smmu_reply e).2 (some ⟨vmsg.bytes, mem⟩) intmap

def virt_smmu_map (e : Env) (alloc_buffer : (size : Nat) → Option {b : Buffer // b.size = size})
    (mem : Mem) (attr : BitVec 32) (table : List Scatter) (nents : BitVec 32) : Outcome :=
  let sgbuf_size := int (nents.toNat * sizeof_sgl)
  let total_size := int (sizeof_smmu_map_msg + sizeof_smmu_map + size_t sgbuf_size)
  if e.buf_size.toNat < total_size then
    match alloc_buffer (PAGE_ALIGN (sizeof_sgtable + size_t sgbuf_size)) with
    | none => ⟨-ENOMEM, none, none, none, []⟩
    | some ⟨intbuf, _⟩ =>
      let mem := intbuf.put mem (sgtable_bytes nents ((table.take nents.toNat).map Scatter.mapped))
      let sgbuf_size := int (intbuf.sgt.length * sizeof_sgl)
      smmu_send e mem (some intbuf) (attr ||| VFASTRPC_MAP_ATTR_INTERNAL_MAP)
        (.ofNat 32 intbuf.sgt.length) intbuf.sgl
        (int (sizeof_smmu_map_msg + sizeof_smmu_map + size_t sgbuf_size))
  else smmu_send e mem none attr nents ((table.take nents.toNat).map Scatter.mapped) total_size

/-- The buffers that invokes freed into the cache of the session. -/
abbrev Cache := List {b : Buffer // b.size < MAX_BUF_SIZE}

/-- A buffer of the cache, or a new one. -/
def vfastrpc_buf_alloc (cached_bufs : Cache) (kzalloc : Bool)
    (alloc_buffer : (size : Nat) → Option {b : Buffer // b.size = size}) (size : Nat) :
    Except Int Buffer :=
  if size = 0 ∨ MAX_BUF_SIZE ≤ size then .error (-1)
  else
    match best_fit.search Buffer.size size (cached_bufs.map Subtype.val) with
    | some fr => .ok fr
    | none =>
      if !kzalloc then .error (-1)
      else
        match alloc_buffer size with
        | none => .error (-ENOMEM)
        | some ⟨buf, _⟩ => .ok buf

/-- What virt_fastrpc_mem_map makes of the answer to its message: its error, and `*raddr`. -/
def mem_reply (e : Env) : Int × Option (BitVec 64) :=
  if e.txbuf_send ≠ 0 then (e.txbuf_send, none)
  else
    match e.rsp with
    | none => (0, none)
    | some (result, raddr) => if result ≠ 0 then (result, none) else (0, some raddr)

/-- From the message on, virt_fastrpc_mem_map. -/
def mem_send (e : Env) (mem : Mem) (int_buf : Option Buffer) (offset flags attrs : BitVec 32)
    (vmmap : Mapping) (table : List Scatter) (total_size : Nat) : Outcome :=
  match virt_alloc_msg e total_size with
  | none => bail (-ENOMEM) none none int_buf
  | some msgid =>
    let new_table := (int_buf.map Buffer.sgl).getD []
    let nested := vmmap.attr &&& VFASTRPC_MAP_ATTR_INTERNAL_MAP ≠ 0
    let vmsg : MemMapMsg :=
      { hdr := ⟨e.pid, e.tid, e.cid, VIRTIO_FASTRPC_CMD_MEM_MAP, .ofNat 32 total_size, msgid, -1⟩
        offset := offset
        flags := flags
        attrs := attrs
        raddr := 0
        mmap := if nested then { vmmap with nents := .ofNat 32 new_table.length } else vmmap
        sgl := if nested then new_table else (table.take vmmap.nents.toNat).map Scatter.dma }
    bail (mem_reply e).1 (mem_reply e).2 (some ⟨vmsg.bytes, mem⟩) int_buf

def virt_fastrpc_mem_map (e : Env) (cached_bufs : Cache) (kzalloc : Bool)
    (alloc_buffer : (size : Nat) → Option {b : Buffer // b.size = size}) (mem : Mem)
    (offset flags attrs : BitVec 32) (vmmap : Mapping) (table : List Scatter) : Outcome :=
  let sgbuf_size := int (vmmap.nents.toNat * sizeof_sgl)
  let total_size := int (sizeof_mem_map_msg + size_t sgbuf_size)
  if e.buf_size.toNat < total_size then
    let vmmap := { vmmap with attr := vmmap.attr ||| VFASTRPC_MAP_ATTR_INTERNAL_MAP }
    match vfastrpc_buf_alloc cached_bufs kzalloc alloc_buffer
        (PAGE_ALIGN (sizeof_sgtable + size_t sgbuf_size)) with
    | .error err => bail err none none none
    | .ok int_buf =>
      let mem := int_buf.put mem
        (sgtable_bytes vmmap.nents ((table.take vmmap.nents.toNat).map Scatter.dma))
      let sgbuf_size := int (int_buf.sgt.length * sizeof_sgl)
      mem_send e mem (some int_buf) offset flags attrs vmmap table
        (int (sizeof_mem_map_msg + size_t sgbuf_size))
  else mem_send e mem none offset flags attrs vmmap table total_size

/-! ## Reading a list back -/

/-- The word of `n` bytes at an offset. -/
def word (n : Nat) (bs : List Byte) (off : Nat) : Nat := fromLE ((bs.drop off).take n)

/-- A number of entries, as addresses and lengths. -/
def read_sgl : Nat → List Byte → List (Nat × Nat)
  | 0, _ => []
  | n + 1, bs => (word 8 bs 0, word 8 bs 8) :: read_sgl n (bs.drop sizeof_sgl)

/-- The memory that entries describe, one after the other. -/
def described (mem : Mem) (sgl : List (Nat × Nat)) : List Byte :=
  sgl.flatMap (fun e => load mem e.1 e.2)

def read_sgtable (bs : List Byte) : List (Nat × Nat) :=
  read_sgl (word 4 bs 0) (bs.drop sizeof_sgtable)

/-- The list of a message that has its attributes, their number and the entries at these offsets. -/
def read_list (attr nents sgl : Nat) (s : Sent) : List (Nat × Nat) :=
  let entries := read_sgl (word 4 s.bytes nents) (s.bytes.drop sgl)
  if BitVec.ofNat 32 (word 4 s.bytes attr) &&& VFASTRPC_MAP_ATTR_INTERNAL_MAP = 0 then entries
  else read_sgtable (described s.mem entries)

def read_smmu_map (s : Sent) : List (Nat × Nat) := read_list 30 34 46 s

def read_mem_map (s : Sent) : List (Nat × Nat) := read_list 70 74 78 s

/-- `hdr.len` of a message. -/
def hdr_len (s : Sent) : Nat := word 4 s.bytes 16

def Sgl.pair (e : Sgl) : Nat × Nat := (e.pv.toNat, e.len.toNat)

/-! ## Words and entries -/

theorem word_append {n v off : Nat} {bs before after : List Byte}
    (h : bs = before ++ (toLE n v ++ after)) (hoff : before.length = off) :
    word n bs off = v % 256 ^ n := by
  subst h hoff
  rw [word, List.drop_left, List.take_left' (length_toLE n v), fromLE_toLE]

theorem word_bitVec {k off : Nat} {x : BitVec (8 * k)} {bs before after : List Byte}
    (h : bs = before ++ (toLE k x.toNat ++ after)) (hoff : before.length = off) :
    word k bs off = x.toNat := by
  have hlt : x.toNat < 256 ^ k := by
    rw [show 256 = 2 ^ 8 by decide, ← Nat.pow_mul]
    exact x.isLt
  rw [word_append h hoff, Nat.mod_eq_of_lt hlt]

@[simp] theorem length_sgl_bytes (sgl : List Sgl) : (sgl_bytes sgl).length = 16 * sgl.length := by
  induction sgl with
  | nil => rfl
  | cons e sgl ih =>
    have hcons : sgl_bytes (e :: sgl) = e.bytes ++ sgl_bytes sgl := rfl
    rw [hcons, List.length_append, ih]
    simp [Sgl.bytes]
    omega

/-- The entries of a list are read back, whatever follows them. -/
theorem read_sgl_bytes (sgl : List Sgl) (rest : List Byte) :
    read_sgl sgl.length (sgl_bytes sgl ++ rest) = sgl.map Sgl.pair := by
  induction sgl with
  | nil => rfl
  | cons e sgl ih =>
    have hbytes : sgl_bytes (e :: sgl) ++ rest =
        toLE 8 e.pv.toNat ++ (toLE 8 e.len.toNat ++ (sgl_bytes sgl ++ rest)) := by
      simp [sgl_bytes, Sgl.bytes]
    have hpv : word 8 (sgl_bytes (e :: sgl) ++ rest) 0 = e.pv.toNat := by
      apply @word_bitVec 8 0 e.pv _ []
      · exact hbytes
      · rfl
    have hlen : word 8 (sgl_bytes (e :: sgl) ++ rest) 8 = e.len.toNat := by
      apply @word_bitVec 8 8 e.len _ (toLE 8 e.pv.toNat)
      · exact hbytes
      · simp
    have hdrop : (sgl_bytes (e :: sgl) ++ rest).drop sizeof_sgl = sgl_bytes sgl ++ rest := by
      rw [hbytes, ← List.append_assoc]
      apply List.drop_left'
      simp [sizeof_sgl]
    rw [List.length_cons, read_sgl, hpv, hlen, hdrop, ih]
    rfl

theorem read_sgtable_bytes {sgl : List Sgl} {nents : BitVec 32} (h : nents.toNat = sgl.length)
    (rest : List Byte) : read_sgtable (sgtable_bytes nents sgl ++ rest) = sgl.map Sgl.pair := by
  have hword : word 4 (sgtable_bytes nents sgl ++ rest) 0 = sgl.length := by
    rw [← h]
    apply @word_bitVec 4 0 nents _ []
    · rw [sgtable_bytes, List.append_assoc]
      rfl
    · rfl
  have hdrop : (sgtable_bytes nents sgl ++ rest).drop sizeof_sgtable = sgl_bytes sgl ++ rest := by
    rw [sgtable_bytes, List.append_assoc]
    apply List.drop_left'
    simp [sizeof_sgtable]
  rw [read_sgtable, hword, hdrop, read_sgl_bytes]

/-! ## The memory of a buffer -/

theorem page_to_phys_toNat (page : Frame) : (page_to_phys page).toNat = page.toNat * PAGE_SIZE := by
  have hlt : page.toNat < 2 ^ 52 := page.isLt
  have hpage : page.toNat % 2 ^ 64 = page.toNat := Nat.mod_eq_of_lt (by omega)
  rw [page_to_phys, BitVec.toNat_shiftLeft, BitVec.toNat_setWidth, hpage, Nat.shiftLeft_eq,
    Nat.mod_eq_of_lt (by omega)]
  rfl

theorem load_eq_map (mem : Mem) (a n : Nat) : load mem a n = (List.range' a n).map mem := by
  rw [load, List.range'_eq_map_range, List.map_map]
  rfl

/-- The memory that the scatter list of a buffer describes is what its mapping shows. -/
theorem Buffer.described (b : Buffer) (mem : Mem) :
    described mem (b.sgl.map Sgl.pair) = load (vmap.view PAGE_SIZE b.frames mem) 0 b.size := by
  have hpages : b.pages.flatMap (fun p => List.range' (page_to_phys p).toNat PAGE_SIZE) =
      b.frames.flatMap (fun p => List.range' (p * PAGE_SIZE) PAGE_SIZE) := by
    rw [Buffer.frames, List.flatMap_map]
    simp only [page_to_phys_toNat]
  have hsize : b.size ≤ b.frames.length * PAGE_SIZE := by
    rw [Buffer.frames, List.length_map, b.count]
    exact le_ALIGN b.size (by decide)
  have hentries : scatter_lists.described mem (b.sgl.map Sgl.pair) =
      (b.sgt.flatMap (fun s => List.range' s.phys.pv.toNat s.length.toNat)).map mem := by
    rw [scatter_lists.described, Buffer.sgl, List.map_map, List.flatMap_map, List.map_flatMap]
    refine List.flatMap_congr fun s _ => ?_
    have hlen : s.phys.len.toNat = s.length.toNat := by
      simp only [Scatter.phys, BitVec.toNat_setWidth]
      exact Nat.mod_eq_of_lt (by have := s.length.isLt; omega)
    exact (load_eq_map mem _ _).trans (by rw [← hlen]; rfl)
  rw [hentries, b.describes, hpages, vmap.flatMap_pages (by decide), ← List.map_take,
    List.take_range, Nat.min_eq_left hsize, List.map_map, load_eq_map, List.range_eq_range']
  rfl

/-- What is written to a buffer is the start of the memory that its scatter list describes. -/
theorem Buffer.described_put (b : Buffer) (mem : Mem) {bs : List Byte} (h : bs.length ≤ b.size) :
    ∃ rest, scatter_lists.described (b.put mem bs) (b.sgl.map Sgl.pair) = bs ++ rest := by
  have hdistinct : b.frames.Nodup := b.distinct.map (fun _ _ => BitVec.eq_of_toNat_eq)
  have hsize : b.size ≤ b.frames.length * PAGE_SIZE := by
    rw [Buffer.frames, List.length_map, b.count]
    exact le_ALIGN b.size (by decide)
  have hview : load (vmap.view PAGE_SIZE b.frames (b.put mem bs)) 0 b.size =
      load (store (vmap.view PAGE_SIZE b.frames mem) 0 bs) 0 b.size := by
    rw [load_eq_iff]
    intro o ho
    exact vmap.view_put (by decide) hdistinct mem 0 bs (by omega)
  refine ⟨load (store (vmap.view PAGE_SIZE b.frames mem) 0 bs) bs.length (b.size - bs.length), ?_⟩
  have hsplit : b.size = bs.length + (b.size - bs.length) := by omega
  rw [b.described, hview, load_eq_map, hsplit, ← List.range'_append_1, List.map_append,
    ← load_eq_map, ← load_eq_map, load_store_same, Nat.zero_add, Nat.add_sub_cancel_left]

/-- A list that was written to a buffer is read back through the scatter list of the buffer. -/
theorem Buffer.read_put (b : Buffer) (mem : Mem) {sgl : List Sgl} {nents : BitVec 32}
    (h : nents.toNat = sgl.length) (hsize : 4 + 16 * sgl.length ≤ b.size) :
    read_sgtable (scatter_lists.described (b.put mem (sgtable_bytes nents sgl))
      (b.sgl.map Sgl.pair)) = sgl.map Sgl.pair := by
  have hlength : (sgtable_bytes nents sgl).length ≤ b.size := by
    simp only [sgtable_bytes, List.length_append, length_toLE, length_sgl_bytes]
    exact hsize
  obtain ⟨rest, hrest⟩ := b.described_put mem hlength
  rw [hrest, read_sgtable_bytes h]

/-! ## Messages and their fields -/

theorem read_list_flat {attr nents off : Nat} {s : Sent} {sgl : List Sgl}
    (hattr : BitVec.ofNat 32 (word 4 s.bytes attr) &&& VFASTRPC_MAP_ATTR_INTERNAL_MAP = 0)
    (hnents : word 4 s.bytes nents = sgl.length) (hsgl : s.bytes.drop off = sgl_bytes sgl) :
    read_list attr nents off s = sgl.map Sgl.pair := by
  have hread := read_sgl_bytes sgl []
  rw [List.append_nil] at hread
  rw [read_list, if_pos hattr, hnents, hsgl, hread]

theorem read_list_nested {attr nents off : Nat} {s : Sent} {b : Buffer} {mem : Mem}
    {sgl : List Sgl} {n : BitVec 32}
    (hattr : BitVec.ofNat 32 (word 4 s.bytes attr) &&& VFASTRPC_MAP_ATTR_INTERNAL_MAP ≠ 0)
    (hnents : word 4 s.bytes nents = b.sgl.length) (hsgl : s.bytes.drop off = sgl_bytes b.sgl)
    (hmem : s.mem = b.put mem (sgtable_bytes n sgl)) (hn : n.toNat = sgl.length)
    (hsize : 4 + 16 * sgl.length ≤ b.size) :
    read_list attr nents off s = sgl.map Sgl.pair := by
  have hread := read_sgl_bytes b.sgl []
  rw [List.append_nil] at hread
  rw [read_list, if_neg hattr, hnents, hsgl, hread, hmem, b.read_put mem hn hsize]

@[simp] theorem Hdr.length_bytes (h : Hdr) : h.bytes.length = 26 := by
  simp [Hdr.bytes]

theorem Hdr.word_len {h : Hdr} {bs rest : List Byte} (hbs : bs = h.bytes ++ rest) :
    word 4 bs 16 = h.len.toNat := by
  apply @word_bitVec 4 16 h.len _
    (toLE 4 h.pid.toNat ++ toLE 4 h.tid.toNat ++ toLE 4 h.cid.toNat ++ toLE 4 h.cmd.toNat)
    (toLE 2 h.msgid.toNat ++ toLE 4 h.result.toNat ++ rest)
  · simp [hbs, Hdr.bytes]
  · simp

theorem SmmuMapMsg.length_bytes (m : SmmuMapMsg) : m.bytes.length = 46 + 16 * m.sgl.length := by
  simp [SmmuMapMsg.bytes]
  omega

theorem SmmuMapMsg.fields (m : SmmuMapMsg) :
    word 4 m.bytes 16 = m.hdr.len.toNat ∧ word 4 m.bytes 30 = m.map_attrs.toNat ∧
      word 4 m.bytes 34 = m.map_nents.toNat ∧ m.bytes.drop 46 = sgl_bytes m.sgl := by
  refine ⟨?_, ?_, ?_, ?_⟩
  · apply Hdr.word_len
    simp only [SmmuMapMsg.bytes, List.append_assoc]
    rfl
  · apply @word_bitVec 4 30 m.map_attrs _ (m.hdr.bytes ++ toLE 4 m.nents.toNat)
      (toLE 4 m.map_nents.toNat ++ toLE 8 m.map_da.toNat ++ sgl_bytes m.sgl)
    · simp [SmmuMapMsg.bytes]
    · simp
  · apply @word_bitVec 4 34 m.map_nents _
      (m.hdr.bytes ++ toLE 4 m.nents.toNat ++ toLE 4 m.map_attrs.toNat)
      (toLE 8 m.map_da.toNat ++ sgl_bytes m.sgl)
    · simp [SmmuMapMsg.bytes]
    · simp
  · apply List.drop_left'
    simp

@[simp] theorem Mapping.length_bytes (m : Mapping) : m.bytes.length = 32 := by
  simp [Mapping.bytes]

theorem MemMapMsg.length_bytes (m : MemMapMsg) : m.bytes.length = 78 + 16 * m.sgl.length := by
  simp [MemMapMsg.bytes]
  omega

theorem MemMapMsg.fields (m : MemMapMsg) :
    word 4 m.bytes 16 = m.hdr.len.toNat ∧ word 4 m.bytes 70 = m.mmap.attr.toNat ∧
      word 4 m.bytes 74 = m.mmap.nents.toNat ∧ m.bytes.drop 78 = sgl_bytes m.sgl := by
  refine ⟨?_, ?_, ?_, ?_⟩
  · apply Hdr.word_len
    simp only [MemMapMsg.bytes, List.append_assoc]
    rfl
  · apply @word_bitVec 4 70 m.mmap.attr _
      (m.hdr.bytes ++ toLE 4 m.offset.toNat ++ toLE 4 m.flags.toNat ++ toLE 4 m.attrs.toNat ++
        toLE 8 m.raddr.toNat ++ toLE 4 m.mmap.fd.toNat ++ toLE 4 m.mmap.refcount.toNat ++
        toLE 8 m.mmap.va.toNat ++ toLE 8 m.mmap.len.toNat)
      (toLE 4 m.mmap.nents.toNat ++ sgl_bytes m.sgl)
    · simp [MemMapMsg.bytes, Mapping.bytes]
    · simp
  · apply @word_bitVec 4 74 m.mmap.nents _
      (m.hdr.bytes ++ toLE 4 m.offset.toNat ++ toLE 4 m.flags.toNat ++ toLE 4 m.attrs.toNat ++
        toLE 8 m.raddr.toNat ++ toLE 4 m.mmap.fd.toNat ++ toLE 4 m.mmap.refcount.toNat ++
        toLE 8 m.mmap.va.toNat ++ toLE 8 m.mmap.len.toNat ++ toLE 4 m.mmap.attr.toNat)
      (sgl_bytes m.sgl)
    · simp [MemMapMsg.bytes, Mapping.bytes]
    · simp
  · apply List.drop_left'
    simp

/-! ## What is sent -/

theorem virt_alloc_msg_some {e : Env} {size : Nat} {msgid : BitVec 16}
    (h : virt_alloc_msg e size = some msgid) : size ≤ e.buf_size.toNat := by
  unfold virt_alloc_msg at h
  split at h
  · cases h
  · omega

/-- A message of virt_smmu_map, and the buffer it took. -/
theorem smmu_send_spec (e : Env) (mem : Mem) (intmap : Option Buffer) (lattr nents : BitVec 32)
    (sgl : List Sgl) (total_size : Nat) :
    (smmu_send e mem intmap lattr nents sgl total_size).released =
      (smmu_send e mem intmap lattr nents sgl total_size).taken.toList ∧
    ∀ s, (smmu_send e mem intmap lattr nents sgl total_size).sent = some s →
      s.mem = mem ∧ total_size ≤ e.buf_size.toNat ∧
      ∃ m : SmmuMapMsg, s.bytes = m.bytes ∧ m.hdr.len = .ofNat 32 total_size ∧ m.map_attrs = lattr ∧
        m.map_nents = nents ∧ m.sgl = sgl := by
  unfold smmu_send
  rcases hm : virt_alloc_msg e total_size with _ | msgid
  · exact ⟨rfl, fun s hs => by cases hs⟩
  · refine ⟨rfl, fun s hs => ?_⟩
    obtain rfl := Option.some.inj hs
    exact ⟨rfl, virt_alloc_msg_some hm, _, rfl, rfl, rfl, rfl, rfl⟩

/-- A message of virt_fastrpc_mem_map, with its own list or with that of the buffer it took. -/
theorem mem_send_spec (e : Env) (mem : Mem) (int_buf : Option Buffer)
    (offset flags attrs : BitVec 32)
    (vmmap : Mapping) (table : List Scatter) (total_size : Nat) :
    (mem_send e mem int_buf offset flags attrs vmmap table total_size).released =
      (mem_send e mem int_buf offset flags attrs vmmap table total_size).taken.toList ∧
    ∀ s, (mem_send e mem int_buf offset flags attrs vmmap table total_size).sent = some s →
      s.mem = mem ∧ total_size ≤ e.buf_size.toNat ∧
      ∃ m : MemMapMsg, s.bytes = m.bytes ∧ m.hdr.len = .ofNat 32 total_size ∧
        m.mmap.attr = vmmap.attr ∧
        (vmmap.attr &&& VFASTRPC_MAP_ATTR_INTERNAL_MAP = 0 →
          m.mmap.nents = vmmap.nents ∧ m.sgl = (table.take vmmap.nents.toNat).map Scatter.dma) ∧
        (vmmap.attr &&& VFASTRPC_MAP_ATTR_INTERNAL_MAP ≠ 0 → ∀ b, int_buf = some b →
          m.mmap.nents = .ofNat 32 b.sgl.length ∧ m.sgl = b.sgl) := by
  unfold mem_send
  rcases hm : virt_alloc_msg e total_size with _ | msgid
  · exact ⟨rfl, fun s hs => by cases hs⟩
  · refine ⟨rfl, fun s hs => ?_⟩
    obtain rfl := Option.some.inj hs
    refine ⟨rfl, virt_alloc_msg_some hm, _, rfl, rfl, ?_, ?_, ?_⟩
    · dsimp only
      split <;> rfl
    · intro hattr
      simp [hattr]
    · rintro hattr b rfl
      dsimp only
      rw [if_pos hattr, if_pos hattr]
      exact ⟨rfl, rfl⟩

/-- What a sender owes for a list: whatever it sends carries the list and has room in a tx buffer,
and a buffer that it took is released. -/
def Carried (e : Env) (read : Sent → List (Nat × Nat)) (sgl : List Sgl) (o : Outcome) : Prop :=
  (∀ s, o.sent = some s → read s = sgl.map Sgl.pair ∧ s.bytes.length ≤ e.buf_size.toNat ∧
    hdr_len s = s.bytes.length) ∧
  o.released = o.taken.toList

theorem int_eq {n : Nat} (h : n < 2 ^ 32) : int n = n := Nat.mod_eq_of_lt h

theorem size_t_eq {i : Nat} (h : i < 2 ^ 31) : size_t i = i := if_pos h

/-- A buffer of less than 2 GiB and a page has few entries. -/
theorem Buffer.length_sgl (b : Buffer) (h : b.size ≤ 2 ^ 31) : b.sgl.length ≤ 2 ^ 19 := by
  have hcount := b.count
  have hsize : PAGE_ALIGN b.size ≤ PAGE_ALIGN (2 ^ 31) := ALIGN_mono PAGE_SIZE h
  have hpages : PAGE_ALIGN (2 ^ 31) = 2 ^ 19 * PAGE_SIZE := by decide
  rw [hpages, ← hcount] at hsize
  have hfew := b.few
  rw [Buffer.sgl, List.length_map]
  exact hfew.trans (Nat.le_of_mul_le_mul_right hsize (by decide))

theorem vfastrpc_buf_alloc_ok {cached_bufs : Cache} {kzalloc : Bool}
    {alloc_buffer : (size : Nat) → Option {b : Buffer // b.size = size}} {size : Nat} {b : Buffer}
    (h : vfastrpc_buf_alloc cached_bufs kzalloc alloc_buffer size = .ok b) :
    size ≤ b.size ∧ b.size < MAX_BUF_SIZE := by
  unfold vfastrpc_buf_alloc at h
  split at h
  · cases h
  · rename_i hsize
    rcases hfr : best_fit.search Buffer.size size (cached_bufs.map Subtype.val) with _ | fr
    · rw [hfr] at h
      dsimp only at h
      split at h
      · cases h
      · rcases ha : alloc_buffer size with _ | ⟨buf, hbuf⟩
        · rw [ha] at h
          cases h
        · rw [ha] at h
          obtain rfl := Except.ok.inj h
          omega
    · rw [hfr] at h
      obtain rfl := Except.ok.inj h
      obtain ⟨hfr, hfits, _⟩ := best_fit.search_some hfr
      obtain ⟨c, _, rfl⟩ := List.mem_map.mp hfr
      exact ⟨hfits, c.property⟩

theorem internal_set (attr : BitVec 32) :
    (attr ||| VFASTRPC_MAP_ATTR_INTERNAL_MAP) &&& VFASTRPC_MAP_ATTR_INTERNAL_MAP ≠ 0 := by
  have habsorb : (attr ||| VFASTRPC_MAP_ATTR_INTERNAL_MAP) &&& VFASTRPC_MAP_ATTR_INTERNAL_MAP =
      VFASTRPC_MAP_ATTR_INTERNAL_MAP := by
    ext i
    simp only [BitVec.getElem_and, BitVec.getElem_or]
    cases VFASTRPC_MAP_ATTR_INTERNAL_MAP[i] <;> simp
  rw [habsorb]
  decide

/-- A message that has the size of its header. -/
theorem sent_fits {e : Env} {s : Sent} {size : Nat} {len : BitVec 32}
    (hword : hdr_len s = len.toNat)
    (hlen : len = .ofNat 32 size) (hlength : s.bytes.length = size) (hfit : size < 2 ^ 31)
    (hsize : size ≤ e.buf_size.toNat) :
    s.bytes.length ≤ e.buf_size.toNat ∧ hdr_len s = s.bytes.length := by
  refine ⟨by omega, ?_⟩
  rw [hword, hlen, hlength, BitVec.toNat_ofNat]
  exact Nat.mod_eq_of_lt (by omega)

theorem ofNat_length_sgl (b : Buffer) (h : b.size ≤ 2 ^ 31) :
    (BitVec.ofNat 32 b.sgl.length).toNat = b.sgl.length := by
  have hfew := b.length_sgl h
  rw [BitVec.toNat_ofNat]
  exact Nat.mod_eq_of_lt (by omega)

/-! ### virt_smmu_map -/

theorem smmu_send_flat {e : Env} {mem : Mem} {attr nents : BitVec 32} {sgl : List Sgl}
    (hattr : attr &&& VFASTRPC_MAP_ATTR_INTERNAL_MAP = 0) (hnents : nents.toNat = sgl.length)
    (hfit : 46 + 16 * sgl.length < 2 ^ 31) :
    Carried e read_smmu_map sgl (smmu_send e mem none attr nents sgl (46 + 16 * sgl.length)) := by
  obtain ⟨hreleased, hsent⟩ := smmu_send_spec e mem none attr nents sgl (46 + 16 * sgl.length)
  refine ⟨fun s hs => ⟨?_, ?_⟩, hreleased⟩
  · obtain ⟨_, _, m, hbytes, _, rfl, rfl, rfl⟩ := hsent s hs
    obtain ⟨_, hattrs, hmap, hdrop⟩ := m.fields
    rw [← hbytes] at hattrs hmap hdrop
    apply read_list_flat
    · rw [hattrs, BitVec.ofNat_toNat]
      simpa using hattr
    · rw [hmap, hnents]
    · exact hdrop
  · obtain ⟨_, hsize, m, hbytes, hlen, _, _, rfl⟩ := hsent s hs
    refine sent_fits ?_ hlen ?_ hfit hsize
    · rw [hdr_len, hbytes, m.fields.1]
    · rw [hbytes, m.length_bytes]

/-- A list in a buffer, whose scatter list is in the message. -/
theorem smmu_send_nested {e : Env} {mem : Mem} {b : Buffer} {attr nents : BitVec 32}
    {sgl : List Sgl}
    (hnents : nents.toNat = sgl.length) (hroom : 4 + 16 * sgl.length ≤ b.size)
    (hsize : b.size ≤ 2 ^ 31) :
    Carried e read_smmu_map sgl (smmu_send e (b.put mem (sgtable_bytes nents sgl)) (some b)
      (attr ||| VFASTRPC_MAP_ATTR_INTERNAL_MAP) (.ofNat 32 b.sgl.length) b.sgl
      (46 + 16 * b.sgl.length)) := by
  obtain ⟨hreleased, hsent⟩ := smmu_send_spec e (b.put mem (sgtable_bytes nents sgl)) (some b)
    (attr ||| VFASTRPC_MAP_ATTR_INTERNAL_MAP) (.ofNat 32 b.sgl.length) b.sgl
    (46 + 16 * b.sgl.length)
  have hfew := b.length_sgl hsize
  refine ⟨fun s hs => ⟨?_, ?_⟩, hreleased⟩
  · obtain ⟨hmem, _, m, hbytes, _, hattr, hn, hsgl⟩ := hsent s hs
    obtain ⟨_, hattrs, hmap, hdrop⟩ := m.fields
    rw [← hbytes] at hattrs hmap hdrop
    apply @read_list_nested 30 34 46 s b mem sgl nents
    · rw [hattrs, BitVec.ofNat_toNat, BitVec.setWidth_eq, hattr]
      exact internal_set attr
    · rw [hmap, hn, ofNat_length_sgl b hsize]
    · rw [hdrop, hsgl]
    · exact hmem
    · exact hnents
    · exact hroom
  · obtain ⟨_, htotal, m, hbytes, hlen, _, _, hsgl⟩ := hsent s hs
    refine sent_fits ?_ hlen ?_ (by omega) htotal
    · rw [hdr_len, hbytes, m.fields.1]
    · rw [hbytes, m.length_bytes, hsgl]

theorem virt_smmu_map_carries (e : Env)
    (alloc_buffer : (size : Nat) → Option {b : Buffer // b.size = size}) (mem : Mem)
    {attr nents : BitVec 32} {table : List Scatter} (hnents : nents.toNat = table.length)
    (hattr : attr &&& VFASTRPC_MAP_ATTR_INTERNAL_MAP = 0) (hfit : 46 + 16 * table.length < 2 ^ 31) :
    Carried e read_smmu_map (table.map Scatter.mapped)
      (virt_smmu_map e alloc_buffer mem attr table nents) := by
  have hsgbuf : int (nents.toNat * sizeof_sgl) = 16 * table.length := by
    rw [hnents, sizeof_sgl, Nat.mul_comm, int_eq (by omega)]
  have htotal : int (sizeof_smmu_map_msg + sizeof_smmu_map + size_t (16 * table.length)) =
      46 + 16 * table.length := by
    rw [size_t_eq (by omega), sizeof_smmu_map_msg, sizeof_smmu_map, int_eq (by omega)]
  have htake : table.take nents.toNat = table := List.take_of_length_le (by omega)
  have hlength : (table.map Scatter.mapped).length = table.length := List.length_map _
  rw [virt_smmu_map, hsgbuf, htotal, htake]
  dsimp only
  split
  · rcases alloc_buffer (PAGE_ALIGN (sizeof_sgtable + size_t (16 * table.length))) with
      _ | ⟨intbuf, hbuf⟩
    · exact ⟨fun s hs => (nomatch hs), rfl⟩
    · rw [size_t_eq (by omega), sizeof_sgtable] at hbuf
      have hroom : 4 + 16 * table.length ≤ intbuf.size := hbuf ▸ le_ALIGN _ (by decide)
      have hsize : intbuf.size ≤ 2 ^ 31 := by
        rw [hbuf]
        exact (ALIGN_mono PAGE_SIZE (show 4 + 16 * table.length ≤ 2 ^ 31 by omega)).trans
          (by decide)
      have hfew := intbuf.length_sgl hsize
      have hcount : intbuf.sgt.length = intbuf.sgl.length := (List.length_map _).symm
      have hmsg : int (sizeof_smmu_map_msg + sizeof_smmu_map +
          size_t (int (intbuf.sgt.length * sizeof_sgl))) = 46 + 16 * intbuf.sgl.length := by
        rw [hcount, sizeof_sgl, Nat.mul_comm, @int_eq (16 * _) (by omega), size_t_eq (by omega),
          sizeof_smmu_map_msg, sizeof_smmu_map, int_eq (by omega)]
      dsimp only
      rw [hmsg, hcount]
      apply smmu_send_nested
      · rw [hlength, hnents]
      · rw [hlength]
        exact hroom
      · exact hsize
  · rw [← hlength]
    apply smmu_send_flat hattr
    · rw [hlength, hnents]
    · rw [hlength]
      exact hfit

/-! ### virt_fastrpc_mem_map -/

theorem mem_send_flat {e : Env} {mem : Mem} {offset flags attrs : BitVec 32} {vmmap : Mapping}
    {table : List Scatter} (hattr : vmmap.attr &&& VFASTRPC_MAP_ATTR_INTERNAL_MAP = 0)
    (hnents : vmmap.nents.toNat = table.length) (hfit : 78 + 16 * table.length < 2 ^ 31) :
    Carried e read_mem_map (table.map Scatter.dma)
      (mem_send e mem none offset flags attrs vmmap table (78 + 16 * table.length)) := by
  obtain ⟨hreleased, hsent⟩ :=
    mem_send_spec e mem none offset flags attrs vmmap table (78 + 16 * table.length)
  have htake : table.take vmmap.nents.toNat = table := List.take_of_length_le (by omega)
  refine ⟨fun s hs => ?_, hreleased⟩
  obtain ⟨_, hsize, m, hbytes, hlen, hmap, hflat, _⟩ := hsent s hs
  obtain ⟨hn, hsgl⟩ := hflat hattr
  rw [htake] at hsgl
  obtain ⟨hword, hattrs, hentries, hdrop⟩ := m.fields
  rw [← hbytes] at hword hattrs hentries hdrop
  constructor
  · apply read_list_flat
    · rw [hattrs, BitVec.ofNat_toNat, hmap]
      simpa using hattr
    · rw [hentries, hn, hnents, List.length_map]
    · rw [hdrop, hsgl]
  · refine sent_fits hword hlen ?_ hfit hsize
    rw [hbytes, m.length_bytes, hsgl, List.length_map]

theorem mem_send_nested {e : Env} {mem : Mem} {b : Buffer} {offset flags attrs : BitVec 32}
    {vmmap : Mapping} {table : List Scatter}
    (hattr : vmmap.attr &&& VFASTRPC_MAP_ATTR_INTERNAL_MAP ≠ 0)
    (hnents : vmmap.nents.toNat = table.length) (hroom : 4 + 16 * table.length ≤ b.size)
    (hsize : b.size ≤ 2 ^ 31) :
    Carried e read_mem_map (table.map Scatter.dma)
      (mem_send e (b.put mem (sgtable_bytes vmmap.nents (table.map Scatter.dma))) (some b) offset
        flags attrs vmmap table (78 + 16 * b.sgl.length)) := by
  obtain ⟨hreleased, hsent⟩ :=
    mem_send_spec e (b.put mem (sgtable_bytes vmmap.nents (table.map Scatter.dma))) (some b) offset
      flags attrs vmmap table (78 + 16 * b.sgl.length)
  have hfew := b.length_sgl hsize
  refine ⟨fun s hs => ?_, hreleased⟩
  obtain ⟨hmem, htotal, m, hbytes, hlen, hmap, _, hnested⟩ := hsent s hs
  obtain ⟨hn, hsgl⟩ := hnested hattr b rfl
  obtain ⟨hword, hattrs, hentries, hdrop⟩ := m.fields
  rw [← hbytes] at hword hattrs hentries hdrop
  constructor
  · apply @read_list_nested 70 74 78 s b mem (table.map Scatter.dma) vmmap.nents
    · rw [hattrs, BitVec.ofNat_toNat, BitVec.setWidth_eq, hmap]
      exact hattr
    · rw [hentries, hn, ofNat_length_sgl b hsize]
    · rw [hdrop, hsgl]
    · exact hmem
    · rw [hnents, List.length_map]
    · rw [List.length_map]
      exact hroom
  · refine sent_fits hword hlen ?_ (by omega) htotal
    rw [hbytes, m.length_bytes, hsgl]

theorem virt_fastrpc_mem_map_carries (e : Env) (cached_bufs : Cache) (kzalloc : Bool)
    (alloc_buffer : (size : Nat) → Option {b : Buffer // b.size = size}) (mem : Mem)
    (offset flags attrs : BitVec 32) {vmmap : Mapping} {table : List Scatter}
    (hnents : vmmap.nents.toNat = table.length)
    (hattr : vmmap.attr &&& VFASTRPC_MAP_ATTR_INTERNAL_MAP = 0)
    (hfit : 78 + 16 * table.length < 2 ^ 31) :
    Carried e read_mem_map (table.map Scatter.dma)
      (virt_fastrpc_mem_map e cached_bufs kzalloc alloc_buffer mem offset flags attrs vmmap
        table) := by
  have hsgbuf : int (vmmap.nents.toNat * sizeof_sgl) = 16 * table.length := by
    rw [hnents, sizeof_sgl, Nat.mul_comm, int_eq (by omega)]
  have htotal : int (sizeof_mem_map_msg + size_t (16 * table.length)) = 78 + 16 * table.length := by
    rw [size_t_eq (by omega), sizeof_mem_map_msg, int_eq (by omega)]
  have htake : table.take vmmap.nents.toNat = table := List.take_of_length_le (by omega)
  rw [virt_fastrpc_mem_map, hsgbuf, htotal]
  dsimp only
  rw [htake]
  split
  · rcases hb : vfastrpc_buf_alloc cached_bufs kzalloc alloc_buffer
      (PAGE_ALIGN (sizeof_sgtable + size_t (16 * table.length))) with err | int_buf
    · exact ⟨fun s hs => (nomatch hs), rfl⟩
    · obtain ⟨hle, hlt⟩ := vfastrpc_buf_alloc_ok hb
      rw [size_t_eq (by omega), sizeof_sgtable] at hle
      have hroom : 4 + 16 * table.length ≤ int_buf.size := (le_ALIGN _ (by decide)).trans hle
      have hsize : int_buf.size ≤ 2 ^ 31 := hlt.le.trans (by decide)
      have hfew := int_buf.length_sgl hsize
      have hcount : int_buf.sgt.length = int_buf.sgl.length := (List.length_map _).symm
      have hmsg : int (sizeof_mem_map_msg + size_t (int (int_buf.sgt.length * sizeof_sgl))) =
          78 + 16 * int_buf.sgl.length := by
        rw [hcount, sizeof_sgl, Nat.mul_comm, @int_eq (16 * _) (by omega), size_t_eq (by omega),
          sizeof_mem_map_msg, int_eq (by omega)]
      dsimp only
      rw [hmsg]
      exact @mem_send_nested e mem int_buf offset flags attrs
        { vmmap with attr := vmmap.attr ||| VFASTRPC_MAP_ATTR_INTERNAL_MAP } table
        (internal_set vmmap.attr) hnents hroom hsize
  · exact mem_send_flat hattr hnents hfit

/-- Both senders carry the whole list, in the message or in a buffer. A piece without a DMA mapping
is named by its page, which is where it starts when it has no offset. -/
theorem nested_and_flat_lists_agree (e : Env)
    (alloc_buffer : (size : Nat) → Option {b : Buffer // b.size = size}) (mem : Mem)
    (table : List Scatter) (nents : BitVec 32) (hnents : nents.toNat = table.length) :
    (∀ attr, attr &&& VFASTRPC_MAP_ATTR_INTERNAL_MAP = 0 → 46 + 16 * table.length < 2 ^ 31 →
      Carried e read_smmu_map (table.map Scatter.mapped)
        (virt_smmu_map e alloc_buffer mem attr table nents)) ∧
    (∀ s ∈ table, s.offset = 0 → s.phys.pv = s.sg_phys) ∧
    (∀ cached_bufs kzalloc offset flags attrs vmmap, vmmap.nents = nents →
      vmmap.attr &&& VFASTRPC_MAP_ATTR_INTERNAL_MAP = 0 → 78 + 16 * table.length < 2 ^ 31 →
      Carried e read_mem_map (table.map Scatter.dma)
        (virt_fastrpc_mem_map e cached_bufs kzalloc alloc_buffer mem offset flags attrs vmmap
          table)) := by
  refine ⟨?_, ?_, ?_⟩
  · intro attr hattr hfit
    exact virt_smmu_map_carries e alloc_buffer mem hnents hattr hfit
  · intro s _ hoffset
    simp [Scatter.phys, Scatter.sg_phys, hoffset]
  · rintro cached_bufs kzalloc offset flags attrs vmmap rfl hattr hfit
    exact virt_fastrpc_mem_map_carries e cached_bufs kzalloc alloc_buffer mem offset flags attrs
      hnents hattr hfit

/-- A buffer of one page. -/
def one_page : Buffer where
  size := 4096
  pages := [5]
  sgt := [⟨5, 0, 4096, 0, 0⟩]
  count := by decide
  distinct := by decide
  few := by decide
  describes := by
    simp only [List.flatMap_cons, List.flatMap_nil, List.append_nil, Scatter.phys]
    exact (List.take_of_length_le (by rw [List.length_range']; decide)).symm

def gives_one_page (size : Nat) : Option {b : Buffer // b.size = size} :=
  if h : one_page.size = size then some ⟨one_page, h⟩ else none

/-- Three pieces: two with a DMA mapping, and a page without one. -/
def three_pieces : List Scatter :=
  [⟨8, 0, 4096, 0x10000, 4096⟩, ⟨9, 16, 32, 0x20010, 32⟩, ⟨12, 0, 4096, 0, 0⟩]

/-- Tx buffers with room for two entries of a virt_smmu_map. -/
def small_buffers : Env := ⟨80, 1, 2, 3, some 4, 0, some (0, 0x5000)⟩

/-- The same, with room for two entries of a virt_fastrpc_mem_map. -/
def larger_buffers : Env := { small_buffers with buf_size := 110 }

def three_pieces_mapping : Mapping := ⟨7, 1, 0x7000, 8224, VFASTRPC_MAP_ATTR_CACHED, 3⟩

theorem three_pieces_go_through_a_page :
    (Carried small_buffers read_smmu_map (three_pieces.map Scatter.mapped)
      (virt_smmu_map small_buffers gives_one_page (fun _ => 0) VFASTRPC_MAP_ATTR_CACHED
        three_pieces 3) ∧
      (virt_smmu_map small_buffers gives_one_page (fun _ => 0) VFASTRPC_MAP_ATTR_CACHED
        three_pieces 3).sent.isSome) ∧
    (Carried larger_buffers read_mem_map (three_pieces.map Scatter.dma)
      (virt_fastrpc_mem_map larger_buffers [] true gives_one_page (fun _ => 0) 0 0 0
        three_pieces_mapping three_pieces) ∧
      (virt_fastrpc_mem_map larger_buffers [] true gives_one_page (fun _ => 0) 0 0 0
        three_pieces_mapping three_pieces).sent.isSome) := by
  refine ⟨⟨?_, by rfl⟩, ?_, by rfl⟩
  · exact (nested_and_flat_lists_agree small_buffers _ _ three_pieces 3 (by decide)).1
      VFASTRPC_MAP_ATTR_CACHED (by decide) (by decide)
  · exact (nested_and_flat_lists_agree larger_buffers _ _ three_pieces 3 (by decide)).2.2
      [] true 0 0 0 three_pieces_mapping rfl (by decide) (by decide)

end virtual_fastrpc.scatter_lists
