-- get_args and put_args of the hybrid driver over the bytes of the memory. The
-- arrays of the metadata are fields in the metadata buffer, which get_args reads
-- back while it copies the buffers, and which the DSP can write; `lrpra` is
-- memory of the kernel.
import PlatformKernel.HybridMarshal
import PlatformKernel.Lib.Words

namespace virtual_fastrpc.hybrid_bytes

open bytes buffers words hybrid_marshal

/-! ## The arrays of the metadata -/

inductive MetaArray
  | rpra | list | pages
  deriving DecidableEq, Repr

/-- The size of an entry. -/
def MetaArray.size (sh : AdsprpcShared) : MetaArray → Nat
  | rpra => sh.sizeof_remote_arg64
  | list => sh.sizeof_smq_invoke_buf
  | pages => sh.sizeof_smq_phy_page

/-- The width of the fields of an entry: `int` in `list`, and `uint64_t` in the others. -/
def MetaArray.width : MetaArray → Nat
  | list => 4
  | _ => 8

/-- Where adsprpc_shared.h puts the fields of an entry. The first one is `buf.pv`, `num` or `addr`,
and the second one `buf.len`, `pgidx` or `size`. The fields of a dma handle share their entry with
those of a buffer. -/
structure Fields (sh : AdsprpcShared) where
  fst : MetaArray → Nat
  snd : MetaArray → Nat
  dma_fd : Nat
  dma_len : Nat
  dma_offset : Nat
  fst_fits : ∀ a, fst a + a.width ≤ a.size sh
  snd_fits : ∀ a, snd a + a.width ≤ a.size sh
  apart : ∀ a, fst a + a.width ≤ snd a ∨ snd a + a.width ≤ fst a
  dma_fits : dma_fd + 4 ≤ sh.sizeof_remote_arg64 ∧ dma_len + 4 ≤ sh.sizeof_remote_arg64 ∧
    dma_offset + 4 ≤ sh.sizeof_remote_arg64

/-- The metadata buffer of a call with `length` arguments. -/
structure Header (sh : AdsprpcShared) where
  fields : Fields sh
  va : Nat
  length : Nat

section header

variable {sh : AdsprpcShared} (h : Header sh)

/-- smq_invoke_buf_start and smq_phy_page_start: each array begins behind the one before. -/
def Header.start : MetaArray → Nat
  | .rpra => h.va
  | .list => h.va + h.length * sh.sizeof_remote_arg64
  | .pages => h.va + h.length * sh.sizeof_remote_arg64 + h.length * sh.sizeof_smq_invoke_buf

/-- `fdlist`, which is behind the arrays. -/
def Header.fdlist : Nat := h.start .pages + h.length * sh.sizeof_smq_phy_page

def Header.fst (a : MetaArray) (i : Nat) : Cell :=
  ⟨h.start a + i * a.size sh + h.fields.fst a, a.width⟩

def Header.snd (a : MetaArray) (i : Nat) : Cell :=
  ⟨h.start a + i * a.size sh + h.fields.snd a, a.width⟩

/-- The address of `pages[idx]`, which wraps around as a pointer does: nobody checks `idx`. -/
def Header.page (idx : BitVec 32) : Nat :=
  (BitVec.ofNat 64 (h.start .pages) +
    idx.signExtend 64 * BitVec.ofNat 64 sh.sizeof_smq_phy_page).toNat

def Header.page_addr (idx : BitVec 32) : Cell := ⟨h.page idx + h.fields.fst .pages, 8⟩

def Header.page_size (idx : BitVec 32) : Cell := ⟨h.page idx + h.fields.snd .pages, 8⟩

/-- `list[i].pgidx`. -/
def Header.pgidx (mem : Mem) (i : Nat) : BitVec 32 := BitVec.ofNat 32 ((h.snd .list i).get mem)

/-- `rpra[i].buf.pv`. -/
def Header.pv (mem : Mem) (i : Nat) : BitVec 64 := BitVec.ofNat 64 ((h.fst .rpra i).get mem)

/-- `rpra[i].buf.len`. -/
def Header.len (mem : Mem) (i : Nat) : BitVec 64 := BitVec.ofNat 64 ((h.snd .rpra i).get mem)

/-! ## get_args -/

/-- The loop that fills `list`, for `n` entries from `i` on. -/
def list_loop (c : Call) : Nat → Nat → Mem → Mem
  | 0, _, mem => mem
  | n + 1, i, mem =>
    let mem := (h.fst .list i).put mem (if c.lpraLen i ≠ 0 then 1 else 0)
    list_loop c n (i + 1) ((h.snd .list i).put mem i)

/-- The loop over the buffers, from the buffer `i` on, that fills `rpra` and the pages of the
buffers with a map. -/
def map_loop : Nat → List Arg → Mem → Except Exit Mem
  | _, [], mem => .ok mem
  | i, a :: as, mem =>
    let mem := (h.fst .rpra i).put mem 0
    let mem := (h.snd .rpra i).put mem a.len.toNat
    if a.len = 0 then map_loop (i + 1) as mem
    else
      match a.map with
      | none => map_loop (i + 1) as ((h.fst .rpra i).put mem a.pv.toNat)
      | some m =>
        match map_pages a m with
        | .error e => .error e
        | .ok page =>
          let idx := h.pgidx mem i
          let mem := (h.page_addr idx).put mem page.addr.toNat
          let mem := (h.page_size idx).put mem page.size.toNat
          map_loop (i + 1) as ((h.fst .rpra i).put mem a.pv.toNat)

/-- The loop that looks for the maps of the dma handles again, from `pages[i]` on, and whether
all of them are there. -/
def handle_loop : Nat → List Handle → Mem → Mem × Bool
  | _, [], mem => (mem, true)
  | i, hd :: hs, mem =>
    match hd.map with
    | .none => handle_loop (i + 1) hs mem
    | .lost => (mem, false)
    | .found da size =>
      let mem := (h.fst .pages i).put mem da.toNat
      handle_loop (i + 1) hs ((h.snd .pages i).put mem size.toNat)

/-- Where the copy loop is. -/
structure Cursor where
  args : Nat
  rlen : BitVec 64
  mem : Mem

/-- The entries of the buffer `i` in a turn of the copy loop: each access to its page reads
`list[i].pgidx` again. -/
def set_entries (i : Nat) (pv addr len : BitVec 64) (mem : Mem) : Mem :=
  let mem := (h.fst .rpra i).put mem pv.toNat
  let mem := (h.page_addr (h.pgidx mem i)).put mem addr.toNat
  let addr := BitVec.ofNat 64 ((h.page_addr (h.pgidx mem i)).get mem)
  let mem := (h.page_addr (h.pgidx mem i)).put mem (buf_page_start addr).toNat
  let buf := h.pv mem i
  (h.page_size (h.pgidx mem i)).put mem (buf_num_pages buf len * BitVec.ofNat 64 PAGE_SIZE).toNat

/-- One turn of the copy loop. The copy goes where `rpra[i].buf.pv` says. -/
def copy_buf (c : Call) (area : Area) (o : Overlap) (s : Cursor) : Except Exit Cursor :=
  let a := c.arg o.raix
  let args := align_args o s.args
  let rlen := s.rlen - BitVec.ofNat 64 (args - s.args)
  let mlen := o.mend - o.mstart
  if rlen.toNat < mlen then .error .copy_room
  else
    match area.copybuf with
    | none => .error .no_copybuf
    | some b =>
      let offset := BitVec.ofNat 64 o.offset
      let pv := BitVec.ofNat 64 args - offset
      let addr := c.da b - offset + (area.totallen - rlen)
      let mem := set_entries h o.raix pv addr a.len s.mem
      if o.raix < c.inbufs then
        match copy_from_user c.user a.pv.toNat a.len.toNat with
        | none => .error .copy_from_user
        | some bs =>
          .ok ⟨args + mlen, rlen - BitVec.ofNat 64 mlen, store mem (h.pv mem o.raix).toNat bs⟩
      else .ok ⟨args + mlen, rlen - BitVec.ofNat 64 mlen, mem⟩

/-- The loop that copies the buffers without a map. -/
def copy_loop (c : Call) (area : Area) : List Overlap → Cursor → Except Exit Cursor
  | [], s => .ok s
  | o :: os, s =>
    if c.copied o.raix then
      match copy_buf h c area o s with
      | .error e => .error e
      | .ok s => copy_loop c area os s
    else copy_loop c area os s

/-- The loop that fills `rpra` of the dma handles, from `rpra[i]` on. -/
def dma_loop : Nat → List Handle → Mem → Mem
  | _, [], mem => mem
  | i, hd :: hs, mem =>
    let entry := h.start .rpra + i * sh.sizeof_remote_arg64
    let mem := (Cell.mk (entry + h.fields.dma_fd) 4).put mem hd.fd.toNat
    let mem := (Cell.mk (entry + h.fields.dma_len) 4).put mem (hd.len.setWidth 32).toNat
    let mem := (Cell.mk (entry + h.fields.dma_offset) 4).put mem (hd.pv.setWidth 32).toNat
    dma_loop (i + 1) hs mem

end header

/-- What get_args leaves: the metadata buffer and the copy buffer, which can be the same, and the
memory. -/
structure Sent where
  buf : Buf
  copybuf : Option Buf
  mem : Mem

/-- The memory that get_args got for the call, which the DSP can write. -/
def Sent.Handed (s : Sent) (x : Nat) : Prop := s.buf.Has x ∨ ∃ b, s.copybuf = some b ∧ b.Has x

def header {sh : AdsprpcShared} (f : Fields sh) (c : Call) (buf : Buf) : Header sh :=
  ⟨f, buf.va, c.length⟩

/-- get_args after its maps are taken. The argument `lrpra` is the address that kzalloc gives, and
`old` the memory before the call. -/
def get_args {sh : AdsprpcShared} (f : Fields sh) (sort : List Overlap → List Overlap) (c : Call)
    (p : Pool) (lrpra : Nat) (old : Mem) : Except Exit Sent :=
  match context_build_overlap sort c.args with
  | none => .error .overlap
  | some overps =>
    match hfastrpc_buf_alloc p (metalen sh c) .METADATA with
    | none => .error .metadata_buf
    | some (buf, p) =>
      if lrpralen sh c ≠ 0 && !c.kzalloc then .error .lrpra
      else
        match copylen_loop c overps 0 with
        | none => .error .copylen
        | some copylen =>
          match copy_area sh c buf copylen p with
          | none => .error .copybuf
          | some area =>
            let h := header f c buf
            let mem := storeAll old
              ((buf.va, zeros (metalen sh c)) :: (lrpra, zeros (lrpralen sh c)) :: area.cleared)
            match map_loop h 0 c.args (list_loop h c c.length 0 mem) with
            | .error e => .error e
            | .ok mem =>
              match handle_loop h c.args.length c.handles mem with
              -- get_args ends here without an error, and `lrpra` stays as kzalloc made it
              | (mem, false) => .ok ⟨buf, area.copybuf, mem⟩
              | (mem, true) =>
                let mem := store mem h.fdlist
                  (zeros (8 * map_table.M_FDLIST + 4 * M_CRCLIST + 8 * M_DSP_PERF_LIST + 4))
                match copy_loop h c area overps ⟨area.args, area.rlen, mem⟩ with
                | .error e => .error e
                | .ok s =>
                  let mem := if c.fds then dma_loop h c.args.length c.handles s.mem else s.mem
                  .ok ⟨buf, area.copybuf, store mem lrpra (load mem buf.va (lrpralen sh c))⟩

end virtual_fastrpc.hybrid_bytes
