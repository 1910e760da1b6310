-- How the hybrid driver passes the buffers of an invoke to the DSP and back:
-- get_args places the buffers without a map in a copy area, which is the tail of
-- the metadata buffer or a buffer of its own, and put_args copies them out.
import PlatformKernel.Buffers
import PlatformKernel.MapTable
import Mathlib.Data.List.Sort
import Mathlib.Data.Set.Lattice
import Mathlib.Logic.Function.Basic
import Mathlib.Order.CompletePartialOrder

namespace virtual_fastrpc.hybrid_marshal

open bytes buffers map_table

def LONG_MAX : Nat := 2 ^ 63 - 1
def PAGE_SHIFT : Nat := 12
def PAGE_MASK : BitVec 64 := ~~~(BitVec.ofNat 64 (PAGE_SIZE - 1))

/-! ## The call -/

/-- What get_args reads of the map of a buffer: whether it has `FASTRPC_ATTR_NOVA`, its place on
the device, and the start of the vma that find_vma finds for it. -/
structure MapRef where
  nova : Bool
  da : BitVec 64
  size : BitVec 64
  vm_start : Option (BitVec 64)
  deriving DecidableEq, Repr

/-- One buffer of an invoke, with its map. -/
structure Arg where
  pv : BitVec 64
  len : BitVec 64
  map : Option MapRef
  deriving DecidableEq, Repr

/-- The map of a dma handle, when get_args looks for it again. -/
inductive HandleMap
  /-- No map was taken. -/
  | none
  /-- Another call has freed it. -/
  | lost
  | found (da size : BitVec 64)
  deriving DecidableEq, Repr

structure Handle where
  fd : BitVec 32
  pv : BitVec 64
  len : BitVec 64
  map : HandleMap
  deriving DecidableEq, Repr

/-- An invoke, after its maps are taken, with all that the user and the kernel decide. -/
structure Call where
  inbufs : Nat
  args : List Arg
  handles : List Handle
  /-- The call came with fds. -/
  fds : Bool
  /-- The kernel has the memory for `lrpra`. -/
  kzalloc : Bool
  /-- The address of a buffer on the device. -/
  da : Buf → BitVec 64
  user : UserMem
  crc : Option Nat
  perf_dsp : Option Nat

def Call.arg (c : Call) (i : Nat) : Arg := c.args.getD i ⟨0, 0, none⟩

/-- The length of `REMOTE_SCALARS_LENGTH`. -/
def Call.length (c : Call) : Nat := c.args.length + c.handles.length

/-- The buffer is copied: it is not empty, and has no map. -/
def Call.copied (c : Call) (i : Nat) : Bool := (c.arg i).len ≠ 0 && (c.arg i).map.isNone

/-! ## Overlaps -/

/-- `struct overlap`, without the mark for cache maintenance. -/
structure Overlap where
  start : Nat
  stop : Nat
  raix : Nat
  mstart : Nat
  mend : Nat
  offset : Nat
  deriving DecidableEq, Repr

/-- The first loop of context_build_overlap, from the buffer `i` on. It rejects a buffer that
wraps around. -/
def build_overs : Nat → List Arg → Option (List Overlap)
  | _, [] => some []
  | i, a :: as =>
    let start := a.pv.toNat
    let stop := (a.pv + a.len).toNat
    if a.len ≠ 0 ∧ stop ≤ start then none
    else (build_overs (i + 1) as).map (fun overs => ⟨start, stop, i, 0, 0, 0⟩ :: overs)

/-- The second loop of context_build_overlap: the part of each buffer that ends behind all
buffers before it. The argument `max_end` is `max.end`. -/
def merge_overs : Nat → List Overlap → List Overlap
  | _, [] => []
  | max_end, o :: os =>
    if o.start < max_end then
      if max_end < o.stop then
        { o with mstart := max_end, mend := o.stop, offset := max_end - o.start } ::
          merge_overs o.stop os
      else
        { o with mstart := 0, mend := 0, offset := max_end - o.start } :: merge_overs max_end os
    else { o with mstart := o.start, mend := o.stop, offset := 0 } :: merge_overs o.stop os

/-- overlap_ptr_cmp: lowest start first, and of those highest end first. -/
def overlap_ptr_cmp (a b : Overlap) : Bool :=
  decide (a.start < b.start) || (a.start == b.start && decide (b.stop ≤ a.stop))

/-- The sort of the kernel is not stable, so it is an argument. -/
def context_build_overlap (sort : List Overlap → List Overlap) (args : List Arg) :
    Option (List Overlap) :=
  (build_overs 0 args).map (fun overs => merge_overs 0 (sort overs))

/-! ## Sizes -/

/-- The arrays of the metadata: `rpra`, `list` and `pages`. -/
def headerlen (sh : AdsprpcShared) (c : Call) : Nat :=
  c.length * (sh.sizeof_remote_arg64 + sh.sizeof_smq_invoke_buf + sh.sizeof_smq_phy_page)

/-- The metadata: the arrays, the fds, the crcs, the counters of the DSP and the early hint. -/
def metalen (sh : AdsprpcShared) (c : Call) : Nat :=
  headerlen sh c + 8 * M_FDLIST + 4 * M_CRCLIST + 8 * M_DSP_PERF_LIST + 4

def lrpralen (sh : AdsprpcShared) (c : Call) : Nat := c.length * sh.sizeof_remote_arg64

def buf_page_start (buf : BitVec 64) : BitVec 64 := buf &&& PAGE_MASK

def buf_num_pages (buf len : BitVec 64) : BitVec 64 :=
  ((buf + len - 1) &&& PAGE_MASK) >>> PAGE_SHIFT - buf_page_start buf >>> PAGE_SHIFT + 1

def buf_page_size (size : Nat) : Nat := max (PAGE_ALIGN (size % 2 ^ 32)) PAGE_SIZE

/-- The loop that computes `copylen`. -/
def copylen_loop (c : Call) : List Overlap → Nat → Option Nat
  | [], copylen => some copylen
  | o :: os, copylen =>
    if c.copied o.raix then
      let copylen := if o.offset = 0 then ALIGN copylen BALIGN else copylen
      let templen := o.mend - o.mstart
      if templen ≤ LONG_MAX ∧ copylen ≤ LONG_MAX - templen then copylen_loop c os
        (copylen + templen)
      else none
    else copylen_loop c os copylen

/-! ## The metadata -/

/-- `rpra[i].buf`. -/
structure RemoteBuf where
  pv : BitVec 64
  len : BitVec 64
  deriving DecidableEq, Repr

/-- `rpra[i].dma`. -/
structure RemoteDma where
  fd : BitVec 32
  len : BitVec 32
  offset : BitVec 32
  deriving DecidableEq, Repr

/-- `list[i]`. -/
structure InvokeBuf where
  num : Nat
  pgidx : Nat
  deriving DecidableEq, Repr

/-- `pages[i]`. -/
structure PhyPage where
  addr : BitVec 64
  size : BitVec 64
  deriving DecidableEq, Repr

/-- The arrays at the start of the metadata buffer. They are values of their own here: a copy
that is placed over them changes the bytes of the buffer, and not these. HybridRefines says when
no copy is. -/
structure Metadata where
  rpra : Nat → RemoteBuf
  dma : Nat → RemoteDma
  list : Nat → InvokeBuf
  pages : Nat → PhyPage

/-- The arrays after get_args has cleared them. -/
def Metadata.zero : Metadata :=
  ⟨fun _ => ⟨0, 0⟩, fun _ => ⟨0, 0, 0⟩, fun _ => ⟨0, 0⟩, fun _ => ⟨0, 0⟩⟩

/-- `lpra[i].buf.len`, of a buffer or of a handle. -/
def Call.lpraLen (c : Call) (i : Nat) : BitVec 64 :=
  (c.args.map Arg.len ++ c.handles.map Handle.len).getD i 0

/-- The loop that fills `list`. -/
def list_loop (c : Call) (md : Metadata) : Metadata :=
  { md with list := fun i =>
      if i < c.length then ⟨if c.lpraLen i ≠ 0 then 1 else 0, i⟩ else md.list i }

/-! ## get_args -/

/-- Why get_args fails. The last one is a null pointer. -/
inductive Exit
  | overlap | metadata_buf | lrpra | copylen | copybuf | no_vma | range | copy_room
  | copy_from_user | no_copybuf
  deriving DecidableEq, Repr

/-- The pages of a buffer with a map. -/
def map_pages (a : Arg) (m : MapRef) : Except Exit PhyPage :=
  let size := buf_num_pages a.pv a.len <<< PAGE_SHIFT
  if m.nova then .ok ⟨m.da, size⟩
  else
    match m.vm_start with
    | none => .error .no_vma
    | some vm_start =>
      let offset := buf_page_start a.pv - vm_start
      if offset + a.len ≤ m.size then .ok ⟨m.da + offset, size⟩ else .error .range

/-- The loop over the buffers, from the buffer `i` on, that fills `rpra` and the pages of the
buffers with a map. -/
def map_loop : Nat → List Arg → Metadata → Except Exit Metadata
  | _, [], md => .ok md
  | i, a :: as, md =>
    let pv := if a.len = 0 then 0 else a.pv
    let md := { md with rpra := Function.update md.rpra i ⟨pv, a.len⟩ }
    match if a.len = 0 then none else a.map with
    | none => map_loop (i + 1) as md
    | some m =>
      match map_pages a m with
      | .error e => .error e
      | .ok page =>
        map_loop (i + 1) as
          { md with pages := Function.update md.pages (md.list i).pgidx page }

/-- The loop that looks for the maps of the dma handles again, from `pages[i]` on, and whether
all of them are there. -/
def handle_loop : Nat → List Handle → Metadata → Metadata × Bool
  | _, [], md => (md, true)
  | i, h :: hs, md =>
    match h.map with
    | .none => handle_loop (i + 1) hs md
    | .lost => (md, false)
    | .found da size =>
      handle_loop (i + 1) hs { md with pages := Function.update md.pages i ⟨da, size⟩ }

/-- The loop that fills `rpra` of the dma handles. -/
def dma_loop (c : Call) (md : Metadata) : Metadata :=
  if c.fds then
    { md with dma := fun i =>
        match c.handles[i - c.args.length]? with
        | some h =>
          if c.args.length ≤ i then ⟨h.fd, h.len.setWidth 32, h.pv.setWidth 32⟩ else md.dma i
        | none => md.dma i }
  else md

/-- The area that the copies go to: `args`, `rlen`, `totallen` and `ctx->copybuf`, and what
get_args clears there. -/
structure Area where
  args : Nat
  rlen : BitVec 64
  totallen : BitVec 64
  copybuf : Option Buf
  cleared : List (Nat × List Byte)

def zeros (n : Nat) : List Byte := List.replicate n 0

/-- The choice of the copy area: the rest of the last page of the metadata when the copies fit
there, and else a buffer of its own, which is cleared. -/
def copy_area (sh : AdsprpcShared) (c : Call) (buf : Buf) (copylen : Nat) (p : Pool) :
    Option Area :=
  let totallen := ALIGN (metalen sh c) BALIGN + copylen
  if totallen ≤ buf_page_size (metalen sh c) then
    some ⟨buf.va + metalen sh c, .ofNat 64 (totallen - metalen sh c), .ofNat 64 totallen,
      some buf, []⟩
  else if copylen ≠ 0 then
    (hfastrpc_buf_alloc p copylen .COPYDATA).map
      (fun r => ⟨r.1.va, .ofNat 64 copylen, .ofNat 64 copylen, some r.1,
        [(r.1.va, zeros copylen)]⟩)
  else some ⟨0, 0, .ofNat 64 totallen, none, []⟩

/-- Where the copy loop is, with its copies so far. -/
structure Cursor where
  args : Nat
  rlen : BitVec 64
  md : Metadata
  copies : List (Nat × List Byte)

/-- `args` at the start of a turn of the copy loop. -/
def align_args (o : Overlap) (args : Nat) : Nat :=
  if o.offset = 0 then ALIGN args BALIGN else args

/-- One turn of the copy loop. A buffer that overlaps one before it is placed `offset` bytes
before `args`, which wraps around as the pointers of the source do. There is no check that it
lies in the copy area. -/
def copy_buf (c : Call) (area : Area) (o : Overlap) (s : Cursor) : Except Exit Cursor :=
  let a := c.arg o.raix
  let args := align_args o s.args
  let rlen := s.rlen - BitVec.ofNat 64 (args - s.args)
  let mlen := o.mend - o.mstart
  if rlen.toNat < mlen then .error .copy_room
  else
    match area.copybuf with
    | none => .error .no_copybuf
    | some b =>
      let offset := BitVec.ofNat 64 o.offset
      let pv := BitVec.ofNat 64 args - offset
      let addr := c.da b - offset + (area.totallen - rlen)
      let page := ⟨buf_page_start addr, buf_num_pages pv a.len * BitVec.ofNat 64 PAGE_SIZE⟩
      let md := { s.md with
        rpra := Function.update s.md.rpra o.raix { s.md.rpra o.raix with pv }
        pages := Function.update s.md.pages (s.md.list o.raix).pgidx page }
      if o.raix < c.inbufs then
        match copy_from_user c.user a.pv.toNat a.len.toNat with
        | none => .error .copy_from_user
        | some bs =>
          .ok ⟨args + mlen, rlen - BitVec.ofNat 64 mlen, md, s.copies ++ [(pv.toNat, bs)]⟩
      else .ok ⟨args + mlen, rlen - BitVec.ofNat 64 mlen, md, s.copies⟩

/-- The loop that copies the buffers without a map. -/
def copy_loop (c : Call) (area : Area) : List Overlap → Cursor → Except Exit Cursor
  | [], s => .ok s
  | o :: os, s =>
    if c.copied o.raix then
      match copy_buf c area o s with
      | .error e => .error e
      | .ok s => copy_loop c area os s
    else copy_loop c area os s

/-- What get_args leaves: the metadata buffer and the copy buffer, which can be the same, the
memory that it has cleared, its copies in their order, the metadata and `ctx->lrpra`. -/
structure Layout where
  buf : Buf
  copybuf : Option Buf
  cleared : List (Nat × List Byte)
  copies : List (Nat × List Byte)
  md : Metadata
  lrpra : Nat → RemoteBuf

/-- get_args after its maps are taken. -/
def get_args (sh : AdsprpcShared) (sort : List Overlap → List Overlap) (c : Call) (p : Pool) :
    Except Exit Layout :=
  match context_build_overlap sort c.args with
  | none => .error .overlap
  | some overps =>
    match hfastrpc_buf_alloc p (metalen sh c) .METADATA with
    | none => .error .metadata_buf
    | some (buf, p) =>
      if lrpralen sh c ≠ 0 && !c.kzalloc then .error .lrpra
      else
        match copylen_loop c overps 0 with
        | none => .error .copylen
        | some copylen =>
          match copy_area sh c buf copylen p with
          | none => .error .copybuf
          | some area =>
            let cleared := (buf.va, zeros (metalen sh c)) :: area.cleared
            match map_loop 0 c.args (list_loop c .zero) with
            | .error e => .error e
            | .ok md =>
              match handle_loop c.args.length c.handles md with
              -- get_args ends here without an error, and `lrpra` stays as kzalloc made it
              | (md, false) => .ok ⟨buf, area.copybuf, cleared, [], md, Metadata.zero.rpra⟩
              | (md, true) =>
                match copy_loop c area overps ⟨area.args, area.rlen, md, []⟩ with
                | .error e => .error e
                | .ok s =>
                  .ok ⟨buf, area.copybuf, cleared, s.copies, dma_loop c s.md, s.md.rpra⟩

/-! ## put_args -/

/-- The place of a buffer in the memory of the kernel. -/
def place (rpra : Nat → RemoteBuf) (i : Nat) : Nat := (rpra i).pv.toNat

/-- What put_args copies of the buffer `i`, which is nothing when it has a map. -/
def outBuf (c : Call) (l : Layout) (i : Nat) : Option (Nat × Nat × Nat) :=
  if (c.arg i).map.isSome then none
  else some ((c.arg i).pv.toNat, place l.lrpra i, (l.lrpra i).len.toNat)

def outBufs (c : Call) (l : Layout) : List (Option (Nat × Nat × Nat)) :=
  (List.range' c.inbufs (c.args.length - c.inbufs)).map (outBuf c l)

/-- put_args: its writes to the memory of the user. It asks for the crcs only when there is an
`lrpra`. -/
def put_args (sh : AdsprpcShared) (c : Call) (l : Layout) (mem : Mem) : List (Nat × List Byte) :=
  match put_bufs c.user mem (outBufs c l) with
  | (ws, false) => ws
  | (ws, true) =>
    let crclist := l.buf.va + headerlen sh c + 8 * M_FDLIST
    let perf_dsp_list := crclist + 4 * M_CRCLIST + 4
    let crc := if lrpralen sh c = 0 then [] else
      c.crc.toList.map (fun u => (copy_to_user c.user mem u crclist (4 * M_CRCLIST)).1)
    let perf := c.perf_dsp.toList.map
      (fun u => (copy_to_user c.user mem u perf_dsp_list (8 * M_DSP_PERF_LIST)).1)
    ws ++ crc ++ perf

/-- The memory that put_args reads: what it held before, under the writes of get_args and of the
DSP. -/
def Layout.memory (l : Layout) (dsp : Nat → Option Byte) (old : Mem) : Mem :=
  overlay (storeAll old (l.cleared ++ l.copies)) dsp

/-! ## The order of the buffers -/

theorem raix_merge_overs (max_end : Nat) (os : List Overlap) :
    (merge_overs max_end os).map Overlap.raix = os.map Overlap.raix := by
  induction os generalizing max_end with
  | nil => rfl
  | cons o os ih =>
    unfold merge_overs
    split
    · split
      · simp [ih]
      · simp [ih]
    · simp [ih]

theorem raix_build_overs {i : Nat} {as : List Arg} {overs : List Overlap}
    (h : build_overs i as = some overs) :
    overs.map Overlap.raix = List.range' i as.length := by
  induction as generalizing i overs with
  | nil =>
    cases h
    rfl
  | cons a as ih =>
    simp only [build_overs] at h
    split at h
    · cases h
    · obtain ⟨rest, hrest, he⟩ := Option.map_eq_some_iff.mp h
      cases he
      simp [List.range'_succ, ih hrest]

/-- The loops over the overlaps see each buffer once. -/
theorem raix_perm {sort : List Overlap → List Overlap} (hsort : ∀ os, (sort os).Perm os)
    {as : List Arg} {overps : List Overlap} (h : context_build_overlap sort as = some overps) :
    (overps.map Overlap.raix).Perm (List.range' 0 as.length) := by
  obtain ⟨overs, hb, rfl⟩ := Option.map_eq_some_iff.mp h
  rw [raix_merge_overs, ← raix_build_overs hb]
  exact (hsort overs).map Overlap.raix

/-! ## The lengths in `rpra` -/

theorem map_loop_rpra {i : Nat} {as : List Arg} {md md' : Metadata}
    (h : map_loop i as md = .ok md') :
    (∀ k, k < i → md'.rpra k = md.rpra k) ∧
      ∀ j, j < as.length → (md'.rpra (i + j)).len = (as.getD j ⟨0, 0, none⟩).len := by
  induction as generalizing i md with
  | nil =>
    cases h
    exact ⟨fun _ _ => rfl, fun j hj => by simp at hj⟩
  | cons a as ih =>
    -- a turn that leaves `rpra[i]` with this length, and the turns after it
    have hturn : ∀ md₁ : Metadata, map_loop (i + 1) as md₁ = .ok md' →
        (∃ pv, md₁.rpra = Function.update md.rpra i ⟨pv, a.len⟩) →
        (∀ k, k < i → md'.rpra k = md.rpra k) ∧
          ∀ j, j < (a :: as).length →
            (md'.rpra (i + j)).len = ((a :: as).getD j ⟨0, 0, none⟩).len := by
      rintro md₁ hrest ⟨pv, hpv⟩
      obtain ⟨hbefore, hafter⟩ := ih hrest
      refine ⟨?_, ?_⟩
      · intro k hk
        rw [hbefore k (by omega), hpv, Function.update_of_ne (by omega)]
      · intro j hj
        cases j with
        | zero =>
          rw [Nat.add_zero, hbefore i (by omega), hpv, Function.update_self]
          rfl
        | succ j =>
          have hj' : j < as.length := by
            rw [List.length_cons] at hj
            omega
          rw [List.getD_cons_succ, ← hafter j hj']
          congr 2
          omega
    simp only [map_loop] at h
    split at h
    · exact hturn _ h ⟨_, rfl⟩
    split at h
    · cases h
    · exact hturn _ h ⟨_, rfl⟩

theorem handle_loop_rpra (i : Nat) (hs : List Handle) (md : Metadata) :
    (handle_loop i hs md).1.rpra = md.rpra := by
  induction hs generalizing i md with
  | nil => rfl
  | cons h hs ih =>
    unfold handle_loop
    split
    · exact ih _ _
    · rfl
    · exact ih _ _

/-- The loop comes to its end exactly when no handle has lost its map. -/
theorem handle_loop_found (i : Nat) (hs : List Handle) (md : Metadata) :
    (handle_loop i hs md).2 = true ↔ ∀ h ∈ hs, h.map ≠ .lost := by
  induction hs generalizing i md with
  | nil => simp [handle_loop]
  | cons h hs ih =>
    unfold handle_loop
    split
    · rename_i hm
      simp [ih, hm]
    · rename_i hm
      simp [hm]
    · rename_i hm
      simp [ih, hm]

/-! ## The copies -/

/-- What one turn of the copy loop does: it gives the buffer a place, and copies an in-buffer
there. -/
theorem copy_buf_ok {c : Call} {area : Area} {o : Overlap} {s s' : Cursor}
    (h : copy_buf c area o s = .ok s') :
    ∃ pv, s'.md.rpra = Function.update s.md.rpra o.raix ⟨pv, (s.md.rpra o.raix).len⟩ ∧
      ((o.raix < c.inbufs ∧ ∃ bs, bs.length = (c.arg o.raix).len.toNat ∧
        s'.copies = s.copies ++ [(pv.toNat, bs)]) ∨
      (¬ o.raix < c.inbufs ∧ s'.copies = s.copies)) := by
  simp only [copy_buf] at h
  split at h
  · cases h
  split at h
  · cases h
  split at h
  · rename_i hin
    split at h
    · cases h
    · rename_i bs hbs
      cases h
      exact ⟨BitVec.ofNat 64 (align_args o s.args) - BitVec.ofNat 64 o.offset, rfl,
        Or.inl ⟨hin, bs, copy_from_user_length hbs, rfl⟩⟩
  · rename_i hin
    cases h
    exact ⟨BitVec.ofNat 64 (align_args o s.args) - BitVec.ofNat 64 o.offset, rfl,
      Or.inr ⟨hin, rfl⟩⟩

/-- The byte at `x` is in the copy of one of the in-buffers `is`. -/
def InCopyOf (c : Call) (is : List Nat) (rpra : Nat → RemoteBuf) (x : Nat) : Prop :=
  ∃ k ∈ is, k < c.inbufs ∧ c.copied k = true ∧ place rpra k ≤ x ∧
    x < place rpra k + (c.arg k).len.toNat

/-- The invariant of the copy loop, which has seen the buffers `is`: the copies are where these
buffers are. -/
def CopiesAt (c : Call) (is : List Nat) (s : Cursor) : Prop :=
  ∀ x, Covered s.copies x ↔ InCopyOf c is s.md.rpra x

/-- A buffer that is not a copied in-buffer adds nothing. -/
theorem inCopyOf_skip {c : Call} {is : List Nat} {i : Nat} {rpra rpra' : Nat → RemoteBuf}
    (hplace : ∀ k ∈ is, place rpra' k = place rpra k)
    (hi : ¬ (i < c.inbufs ∧ c.copied i = true)) (x : Nat) :
    InCopyOf c (is ++ [i]) rpra' x ↔ InCopyOf c is rpra x := by
  constructor
  · rintro ⟨k, hk, hin, hc, hlo, hhi⟩
    rcases List.mem_append.mp hk with hk | hk
    · rw [hplace k hk] at hlo hhi
      exact ⟨k, hk, hin, hc, hlo, hhi⟩
    · rw [List.mem_singleton.mp hk] at hin hc
      exact absurd ⟨hin, hc⟩ hi
  · rintro ⟨k, hk, hin, hc, hlo, hhi⟩
    rw [← hplace k hk] at hlo hhi
    exact ⟨k, List.mem_append_left _ hk, hin, hc, hlo, hhi⟩

theorem inCopyOf_copy {c : Call} {is : List Nat} {i : Nat} {rpra rpra' : Nat → RemoteBuf}
    (hplace : ∀ k ∈ is, place rpra' k = place rpra k) (hin : i < c.inbufs)
    (hc : c.copied i = true) (x : Nat) :
    InCopyOf c (is ++ [i]) rpra' x ↔
      InCopyOf c is rpra x ∨ (place rpra' i ≤ x ∧ x < place rpra' i + (c.arg i).len.toNat) := by
  constructor
  · rintro ⟨k, hk, hkin, hkc, hlo, hhi⟩
    rcases List.mem_append.mp hk with hk | hk
    · rw [hplace k hk] at hlo hhi
      exact Or.inl ⟨k, hk, hkin, hkc, hlo, hhi⟩
    · rw [List.mem_singleton.mp hk] at hlo hhi
      exact Or.inr ⟨hlo, hhi⟩
  · rintro (⟨k, hk, hkin, hkc, hlo, hhi⟩ | ⟨hlo, hhi⟩)
    · rw [← hplace k hk] at hlo hhi
      exact ⟨k, List.mem_append_left _ hk, hkin, hkc, hlo, hhi⟩
    · exact ⟨i, by simp, hin, hc, hlo, hhi⟩

theorem covered_append_one (ws : List (Nat × List Byte)) (a x : Nat) (bs : List Byte) :
    Covered (ws ++ [(a, bs)]) x ↔ Covered ws x ∨ (a ≤ x ∧ x < a + bs.length) := by
  rw [covered_append]
  unfold Covered
  simp

/-- A turn of the loop for a buffer that it has not seen keeps the invariant. -/
theorem copy_buf_copiesAt {c : Call} {area : Area} {o : Overlap} {s s' : Cursor} {is : List Nat}
    (h : copy_buf c area o s = .ok s') (hcop : c.copied o.raix = true) (hnew : o.raix ∉ is)
    (hs : CopiesAt c is s) : CopiesAt c (is ++ [o.raix]) s' := by
  obtain ⟨pv, hrpra, hcopies⟩ := copy_buf_ok h
  have hplace : ∀ k ∈ is, place s'.md.rpra k = place s.md.rpra k := by
    intro k hk
    have hne : k ≠ o.raix := by
      rintro rfl
      exact hnew hk
    unfold place
    rw [hrpra, Function.update_of_ne hne]
  have hself : place s'.md.rpra o.raix = pv.toNat := by
    unfold place
    rw [hrpra, Function.update_self]
  intro x
  rcases hcopies with ⟨hin, bs, hlen, he⟩ | ⟨hout, he⟩
  · rw [he, covered_append_one, hs x, inCopyOf_copy hplace hin hcop, hself, hlen]
  · rw [he, hs x, inCopyOf_skip hplace (fun hx => hout hx.1)]

theorem copy_loop_cons {c : Call} {area : Area} {o : Overlap} {os : List Overlap} {s s' : Cursor}
    (h : copy_loop c area (o :: os) s = .ok s') :
    (c.copied o.raix = true ∧ ∃ s₁, copy_buf c area o s = .ok s₁ ∧
      copy_loop c area os s₁ = .ok s') ∨
      (c.copied o.raix ≠ true ∧ copy_loop c area os s = .ok s') := by
  unfold copy_loop at h
  split at h
  · rename_i hcop
    split at h
    · cases h
    · rename_i s₁ hone
      exact Or.inl ⟨hcop, s₁, hone, h⟩
  · rename_i hcop
    exact Or.inr ⟨hcop, h⟩

theorem copy_loop_copiesAt {c : Call} {area : Area} {os : List Overlap} {s s' : Cursor}
    {is : List Nat} (h : copy_loop c area os s = .ok s')
    (hnodup : (is ++ os.map Overlap.raix).Nodup) (hs : CopiesAt c is s) :
    CopiesAt c (is ++ os.map Overlap.raix) s' := by
  induction os generalizing s is with
  | nil =>
    cases h
    simpa using hs
  | cons o os ih =>
    have hnew : o.raix ∉ is := by
      intro hmem
      exact (List.nodup_append.mp hnodup).2.2 o.raix hmem o.raix (by simp) rfl
    rw [List.map_cons, List.append_cons] at hnodup ⊢
    rcases copy_loop_cons h with ⟨hcop, s₁, hone, h⟩ | ⟨hcop, h⟩
    · exact ih h hnodup (copy_buf_copiesAt hone hcop hnew hs)
    · refine ih h hnodup (fun x => ?_)
      rw [hs x, inCopyOf_skip (fun _ _ => rfl) (fun hx => hcop hx.2)]

theorem copy_loop_len {c : Call} {area : Area} {os : List Overlap} {s s' : Cursor}
    (h : copy_loop c area os s = .ok s') (k : Nat) :
    (s'.md.rpra k).len = (s.md.rpra k).len := by
  induction os generalizing s with
  | nil =>
    cases h
    rfl
  | cons o os ih =>
    rcases copy_loop_cons h with ⟨_, s₁, hone, h⟩ | ⟨_, h⟩
    · obtain ⟨pv, hrpra, _⟩ := copy_buf_ok hone
      rw [ih h, hrpra]
      by_cases hk : k = o.raix
      · rw [hk, Function.update_self]
      · rw [Function.update_of_ne hk]
    · exact ih h

/-! ## What get_args leaves -/

/-- A dma handle has lost its map, so that get_args ends before the copies. -/
def Call.Lost (c : Call) : Prop := ∃ h ∈ c.handles, h.map = .lost

/-- The byte at `x` is in the copy of an in-buffer. -/
def InCopy (c : Call) (rpra : Nat → RemoteBuf) (x : Nat) : Prop :=
  ∃ k, k < c.inbufs ∧ c.copied k = true ∧ place rpra k ≤ x ∧
    x < place rpra k + (c.arg k).len.toNat

theorem arg_of_length_le {c : Call} {k : Nat} (h : c.args.length ≤ k) : c.arg k = ⟨0, 0, none⟩ := by
  unfold Call.arg
  rw [List.getD_eq_getElem?_getD, List.getElem?_eq_none h]
  rfl

theorem lt_length_of_copied {c : Call} {k : Nat} (h : c.copied k = true) : k < c.args.length := by
  by_contra hge
  unfold Call.copied at h
  rw [arg_of_length_le (Nat.le_of_not_lt hge)] at h
  simp at h

/-- What get_args promises: the metadata is cleared; and `lrpra` is empty when a handle has lost
its map, and else has the length of each buffer, and the copies where the in-buffers are. -/
structure Marshalled (sh : AdsprpcShared) (c : Call) (l : Layout) : Prop where
  header : (l.buf.va, zeros (metalen sh c)) ∈ l.cleared
  lost : c.Lost → ∀ i, (l.lrpra i).len = 0
  len : ¬ c.Lost → ∀ i, i < c.args.length → (l.lrpra i).len = (c.arg i).len
  copies : ¬ c.Lost → ∀ x, Covered l.copies x ↔ InCopy c l.lrpra x

theorem get_args_marshalled {sh : AdsprpcShared} {sort : List Overlap → List Overlap}
    (hsort : ∀ os, (sort os).Perm os) {c : Call} {p : Pool} {l : Layout}
    (h : get_args sh sort c p = .ok l) : Marshalled sh c l := by
  unfold get_args at h
  split at h
  · cases h
  rename_i overps hover
  split at h
  · cases h
  split at h
  · cases h
  split at h
  · cases h
  split at h
  · cases h
  rename_i area _
  dsimp only at h
  split at h
  · cases h
  rename_i md hmap
  have hfound := handle_loop_found c.args.length c.handles md
  have hrpra := handle_loop_rpra c.args.length c.handles md
  split at h
  · rename_i md₁ hh
    rw [hh] at hfound
    cases h
    refine ⟨List.mem_cons_self, fun _ _ => rfl, ?_, ?_⟩
    · intro hnot
      exact absurd (hfound.mpr (fun x hx hl => hnot ⟨x, hx, hl⟩)) (by simp)
    · intro hnot
      exact absurd (hfound.mpr (fun x hx hl => hnot ⟨x, hx, hl⟩)) (by simp)
  · rename_i md₁ hh
    rw [hh] at hfound hrpra
    split at h
    · cases h
    rename_i s hloop
    cases h
    refine ⟨List.mem_cons_self, ?_, ?_, ?_⟩
    · rintro ⟨x, hx, hl⟩
      exact absurd hl (hfound.mp rfl x hx)
    · intro _ i hi
      have hlen := (map_loop_rpra hmap).2 i hi
      rw [Nat.zero_add] at hlen
      dsimp only at hrpra
      rw [copy_loop_len hloop]
      dsimp only
      rw [hrpra]
      exact hlen
    · intro _ x
      have hperm := raix_perm hsort hover
      have hstart : CopiesAt c [] ⟨area.args, area.rlen, md₁, []⟩ := by
        intro x
        simp [Covered, InCopyOf]
      have hat := copy_loop_copiesAt hloop (hperm.nodup_iff.mpr List.nodup_range') hstart x
      refine hat.trans ⟨?_, ?_⟩
      · rintro ⟨k, _, hk⟩
        exact ⟨k, hk⟩
      · rintro ⟨k, hk⟩
        refine ⟨k, ?_, hk⟩
        rw [List.nil_append, hperm.mem_iff, List.mem_range']
        exact ⟨k, lt_length_of_copied hk.2.1, by omega⟩

/-! ## What put_args reads -/

/-- The reads of the crcs and of the counters of the DSP. -/
def headerReads (sh : AdsprpcShared) (c : Call) (l : Layout) : List (Nat × Nat × Nat) :=
  let crclist := l.buf.va + headerlen sh c + 8 * M_FDLIST
  (if lrpralen sh c = 0 then [] else
    c.crc.toList.map (fun u => (u, crclist, min (4 * M_CRCLIST) (c.user.takes u)))) ++
    c.perf_dsp.toList.map
      (fun u => (u, crclist + 4 * M_CRCLIST + 4, min (8 * M_DSP_PERF_LIST) (c.user.takes u)))

def reads (sh : AdsprpcShared) (c : Call) (l : Layout) : List (Nat × Nat × Nat) :=
  (bufReads c.user (outBufs c l)).1 ++
    if (bufReads c.user (outBufs c l)).2 then headerReads sh c l else []

theorem put_args_eq (sh : AdsprpcShared) (c : Call) (l : Layout) (mem : Mem) :
    put_args sh c l mem = copyOut mem (reads sh c l) := by
  unfold put_args reads
  rw [put_bufs_eq]
  rcases hb : bufReads c.user (outBufs c l) with ⟨rs, _ | _⟩
  · simp
  · by_cases hlr : lrpralen sh c = 0
    · simp [headerReads, hlr, copy_to_user, copyOut, Function.comp_def]
    · simp [headerReads, hlr, copy_to_user, copyOut, Function.comp_def]

theorem outBuf_eq_some {c : Call} {l : Layout} {i dst src len : Nat} :
    outBuf c l i = some (dst, src, len) ↔ (c.arg i).map = none ∧ dst = (c.arg i).pv.toNat ∧
      src = place l.lrpra i ∧ len = (l.lrpra i).len.toNat := by
  unfold outBuf
  rcases (c.arg i).map with _ | m
  · simp [eq_comm]
  · simp

/-! ## Stale bytes -/

/-- The memory that get_args got for the call. -/
def Layout.Handed (l : Layout) (x : Nat) : Prop :=
  l.buf.Has x ∨ ∃ b, l.copybuf = some b ∧ b.Has x

/-- The memory that get_args got for the call and does not clear: the pages of the metadata buffer
behind the metadata, where the copies are when they fit, and the pages of a copy buffer behind
the copies. -/
def Layout.Uncleared (l : Layout) (x : Nat) : Prop := l.Handed x ∧ ¬ Covered l.cleared x

/-- put_args gives the byte `j` of the out-buffer `i` to the user: the buffer has no map, and the
memory of the user takes the byte and all buffers without a map before this one. -/
structure Delivered (c : Call) (i j : Nat) : Prop where
  out : c.inbufs ≤ i ∧ i < c.args.length
  unmapped : (c.arg i).map = none
  len : j < (c.arg i).len.toNat
  taken : j < c.user.takes (c.arg i).pv.toNat
  before : ∀ k, c.inbufs ≤ k → k < i → (c.arg k).map = none →
    (c.arg k).len.toNat ≤ c.user.takes (c.arg k).pv.toNat

variable {sh : AdsprpcShared} {c : Call} {l : Layout}

/-- The crcs and the counters are in the metadata. -/
theorem covered_headerReads (hl : Marshalled sh c l) {r : Nat × Nat × Nat}
    (hr : r ∈ headerReads sh c l) {j : Nat} (hj : j < r.2.2) : Covered l.cleared (r.2.1 + j) := by
  have hin : l.buf.va ≤ r.2.1 ∧ r.2.1 + r.2.2 ≤ l.buf.va + metalen sh c := by
    unfold metalen
    rcases List.mem_append.mp hr with hr | hr
    · split at hr
      · cases hr
      obtain ⟨u, _, rfl⟩ := List.mem_map.mp hr
      have := Nat.min_le_left (4 * M_CRCLIST) (c.user.takes u)
      dsimp only
      omega
    · obtain ⟨u, _, rfl⟩ := List.mem_map.mp hr
      have := Nat.min_le_left (8 * M_DSP_PERF_LIST) (c.user.takes u)
      dsimp only
      omega
  refine ⟨_, hl.header, by omega, ?_⟩
  simp only [zeros, List.length_replicate]
  omega

/-- The bytes that the loop over the out-buffers reads are the ones that it delivers. -/
theorem bufReads_iff_delivered (hl : Marshalled sh c l) (Q : Nat → Prop) :
    (∀ r ∈ (bufReads c.user (outBufs c l)).1, ∀ j, j < r.2.2 → Q (r.2.1 + j)) ↔
      (¬ c.Lost → ∀ i j, Delivered c i j → Q (place l.lrpra i + j)) := by
  unfold outBufs
  constructor
  · intro h hlost i j hd
    obtain ⟨hlo, hhi⟩ := hd.out
    refine h _ (mem_bufReads.mpr ⟨i, _, _, _, hlo, by omega,
      outBuf_eq_some.mpr ⟨hd.unmapped, rfl, rfl, rfl⟩, rfl, ?_⟩) j ?_
    · intro k hk hki dst src len hbuf
      obtain ⟨hnone, rfl, _, rfl⟩ := outBuf_eq_some.mp hbuf
      rw [hl.len hlost k (by omega)]
      exact hd.before k hk hki hnone
    · dsimp only
      rw [hl.len hlost i hhi]
      exact Nat.lt_min.mpr ⟨hd.len, hd.taken⟩
  · intro h r hr j hj
    obtain ⟨i, dst, src, len, hlo, hhi, hbuf, rfl, hbefore⟩ := mem_bufReads.mp hr
    obtain ⟨hnone, rfl, rfl, rfl⟩ := outBuf_eq_some.mp hbuf
    dsimp only at hj
    by_cases hlost : c.Lost
    · -- the lengths in `lrpra` are 0
      rw [hl.lost hlost i] at hj
      simp at hj
    · rw [hl.len hlost i (by omega)] at hj
      obtain ⟨hlen, htaken⟩ := Nat.lt_min.mp hj
      refine h hlost i j ⟨⟨hlo, by omega⟩, hnone, hlen, htaken, ?_⟩
      intro k hk hki hkn
      rw [← hl.len hlost k (by omega)]
      exact hbefore k hk hki _ _ _ (outBuf_eq_some.mpr ⟨hkn, rfl, rfl, rfl⟩)

/-- Two runs of an invoke that differ only in what the buffers handed out to it held before give
the user the same bytes, exactly when a dma handle has lost its map, or each byte of an
out-buffer that put_args delivers from memory that get_args has not cleared lies in the copy of
an in-buffer or was written by the DSP. The memory, the places and the copies are those that
get_args has left here; StaleBytes tells them from the request. -/
theorem same_bytes_iff_settled {sort : List Overlap → List Overlap}
    (hsort : ∀ os, (sort os).Perm os) {p : Pool} (hget : get_args sh sort c p = .ok l)
    (dsp : Nat → Option Byte) :
    (∀ old old' : Mem, (∀ x, ¬ l.Handed x → old x = old' x) →
      put_args sh c l (l.memory dsp old) = put_args sh c l (l.memory dsp old')) ↔
    (¬ c.Lost → ∀ i j, Delivered c i j → l.Uncleared (place l.lrpra i + j) →
      InCopy c l.lrpra (place l.lrpra i + j) ∨ dsp (place l.lrpra i + j) ≠ none) := by
  have hl := get_args_marshalled hsort hget
  simp only [put_args_eq]
  refine (copyOut_eq_iff_settled (l.cleared ++ l.copies) dsp l.Handed (reads sh c l)).trans ?_
  unfold Settled
  simp only [covered_append]
  have hbufs := bufReads_iff_delivered hl (fun x => l.Handed x →
    (Covered l.cleared x ∨ Covered l.copies x) ∨ dsp x ≠ none)
  constructor
  · intro h hlost i j hd hun
    have hall := hbufs.mp (fun r hr => h r (List.mem_append_left _ hr)) hlost i j hd hun.1
    rw [hl.copies hlost] at hall
    rcases hall with (hcl | hcopy) | hdsp
    · exact absurd hcl hun.2
    · exact Or.inl hcopy
    · exact Or.inr hdsp
  · intro h r hr j hj hhand
    rcases List.mem_append.mp hr with hr | hr
    · refine hbufs.mpr (fun hlost i j hd hhand => ?_) r hr j hj hhand
      rw [hl.copies hlost]
      by_cases hcl : Covered l.cleared (place l.lrpra i + j)
      · exact Or.inl (Or.inl hcl)
      rcases h hlost i j hd ⟨hhand, hcl⟩ with hcopy | hdsp
      · exact Or.inl (Or.inr hcopy)
      · exact Or.inr hdsp
    · split at hr
      · exact Or.inl (Or.inl (covered_headerReads hl hr hj))
      · cases hr

/-- A sort as the kernel's. -/
def sortOverlaps (os : List Overlap) : List Overlap :=
  os.insertionSort (fun a b => overlap_ptr_cmp a b = true)

/-- One out-buffer of two bytes, without a map. -/
def outCall : Call :=
  { inbufs := 0, args := [⟨65536, 2, none⟩], handles := [], fds := false, kzalloc := true,
    da := fun _ => 0x80000000, user := ⟨fun _ => none, fun _ => 4096⟩, crc := none,
    perf_dsp := none }

/-- A session with one persistent header, which is free. -/
def hdrPool : Pool := ⟨[(8192, false)], [], []⟩

end virtual_fastrpc.hybrid_marshal
