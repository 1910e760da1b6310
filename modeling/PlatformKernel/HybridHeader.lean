-- The bytes of the metadata and the arrays as values: while no copy goes over
-- the metadata buffer, get_args over bytes does what get_args over values does,
-- and the DSP finds the arrays of the values in the bytes.
import PlatformKernel.HybridBytes
import PlatformKernel.HybridImages

namespace virtual_fastrpc.hybrid_bytes

open bytes buffers words hybrid_marshal

/-! ## Slots -/

/-- A field of the entry `i` of an array, the first or the second one. -/
structure Slot where
  arr : MetaArray
  snd : Bool
  i : Nat
  deriving DecidableEq, Repr

section slots

variable {sh : AdsprpcShared} (h : Header sh)

def Header.field (s : Slot) : Cell := if s.snd then h.snd s.arr s.i else h.fst s.arr s.i

theorem fst_eq_field (a : MetaArray) (i : Nat) : h.fst a i = h.field ⟨a, false, i⟩ := rfl

theorem snd_eq_field (a : MetaArray) (i : Nat) : h.snd a i = h.field ⟨a, true, i⟩ := rfl

@[simp] theorem field_width (s : Slot) : (h.field s).width = s.arr.width := by
  unfold Header.field
  split <;> rfl

/-- A field lies in its entry. -/
theorem field_bounds (s : Slot) : h.start s.arr + s.i * s.arr.size sh ≤ (h.field s).addr ∧
    (h.field s).addr + s.arr.width ≤ h.start s.arr + (s.i + 1) * s.arr.size sh := by
  have hf := h.fields.fst_fits s.arr
  have hs := h.fields.snd_fits s.arr
  have hsucc : (s.i + 1) * s.arr.size sh = s.i * s.arr.size sh + s.arr.size sh := Nat.succ_mul ..
  unfold Header.field
  split
  · simp only [Header.snd]
    omega
  · simp only [Header.fst]
    omega

/-- An entry lies in its array. -/
theorem entry_le (a : MetaArray) {i : Nat} (hi : i < h.length) :
    h.start a + (i + 1) * a.size sh ≤ h.start a + h.length * a.size sh :=
  Nat.add_le_add_left (Nat.mul_le_mul_right _ hi) _

theorem va_le_start (a : MetaArray) : h.va ≤ h.start a := by
  cases a <;> simp only [Header.start] <;> omega

theorem start_le_fdlist (a : MetaArray) : h.start a + h.length * a.size sh ≤ h.fdlist := by
  cases a <;> simp only [Header.fdlist, Header.start, MetaArray.size] <;> omega

theorem field_in_header {s : Slot} (hs : s.i < h.length) :
    h.va ≤ (h.field s).addr ∧ (h.field s).addr + s.arr.width ≤ h.fdlist := by
  obtain ⟨hlo, hhi⟩ := field_bounds h s
  have hentry := entry_le h s.arr hs
  have hva := va_le_start h s.arr
  have hend := start_le_fdlist h s.arr
  exact ⟨by omega, by omega⟩

/-- The arrays do not overlap. -/
theorem arrays_apart {a b : MetaArray} (hne : a ≠ b) :
    h.start a + h.length * a.size sh ≤ h.start b ∨
      h.start b + h.length * b.size sh ≤ h.start a := by
  cases a <;> cases b <;> first
    | exact absurd rfl hne
    | (simp only [Header.start, MetaArray.size]; omega)

theorem field_apart {s t : Slot} (hs : s.i < h.length) (ht : t.i < h.length) (hne : s ≠ t) :
    (h.field s).Apart (h.field t).addr t.arr.width := by
  obtain ⟨hslo, hshi⟩ := field_bounds h s
  obtain ⟨htlo, hthi⟩ := field_bounds h t
  unfold Cell.Apart
  rw [field_width]
  by_cases harr : s.arr = t.arr
  · rcases Nat.lt_trichotomy s.i t.i with hlt | heq | hgt
    · have hle : (s.i + 1) * s.arr.size sh ≤ t.i * s.arr.size sh := Nat.mul_le_mul_right _ hlt
      rw [harr] at hslo hshi hle ⊢
      right
      omega
    · -- one entry, so the two fields of it
      have hsnd : s.snd ≠ t.snd := by
        intro h2
        apply hne
        cases s
        cases t
        simp_all
      have hap := h.fields.apart t.arr
      unfold Header.field Header.fst Header.snd
      rw [harr, heq]
      rcases hb : s.snd <;> rcases hc : t.snd
      · simp [hb, hc] at hsnd
      · simp only [Bool.false_eq_true, if_false, if_true]
        omega
      · simp only [Bool.false_eq_true, if_false, if_true]
        omega
      · simp [hb, hc] at hsnd
    · have hle : (t.i + 1) * t.arr.size sh ≤ s.i * t.arr.size sh := Nat.mul_le_mul_right _ hgt
      rw [harr] at hslo hshi ⊢
      left
      omega
  · have hse := entry_le h s.arr hs
    have hte := entry_le h t.arr ht
    rcases arrays_apart h harr with hap | hap
    · right
      omega
    · left
      omega

/-- A write to a field is read back, and changes no other field. -/
theorem get_put_field {s t : Slot} (hs : s.i < h.length) (ht : t.i < h.length) (mem : Mem) {v : Nat}
    (hv : v < 256 ^ s.arr.width) :
    (h.field t).get ((h.field s).put mem v) = if t = s then v else (h.field t).get mem := by
  split
  · rename_i heq
    rw [heq]
    apply Cell.get_put
    rw [field_width]
    exact hv
  · rename_i hne
    apply Cell.get_put_of_apart
    rw [field_width]
    exact field_apart h ht hs hne

end slots

/-! ## The arrays in the bytes -/

/-- What the arrays have in a field. -/
def slotValue (md : Metadata) (s : Slot) : Nat :=
  match s.arr, s.snd with
  | .rpra, false => (md.rpra s.i).pv.toNat
  | .rpra, true => (md.rpra s.i).len.toNat
  | .list, false => (md.list s.i).num
  | .list, true => (md.list s.i).pgidx
  | .pages, false => (md.pages s.i).addr.toNat
  | .pages, true => (md.pages s.i).size.toNat

/-- The arrays, with another value in a field of `rpra` or `pages`. -/
def setSlot (md : Metadata) (s : Slot) (v : BitVec 64) : Metadata :=
  match s.arr, s.snd with
  | .rpra, false => { md with rpra := Function.update md.rpra s.i { md.rpra s.i with pv := v } }
  | .rpra, true => { md with rpra := Function.update md.rpra s.i { md.rpra s.i with len := v } }
  | .list, _ => md
  | .pages, false =>
    { md with pages := Function.update md.pages s.i { md.pages s.i with addr := v } }
  | .pages, true =>
    { md with pages := Function.update md.pages s.i { md.pages s.i with size := v } }

theorem slotValue_setSlot (md : Metadata) {s : Slot} (v : BitVec 64) (harr : s.arr ≠ .list)
    (t : Slot) :
    slotValue (setSlot md s v) t = if t = s then v.toNat else slotValue md t := by
  obtain ⟨sa, sb, si⟩ := s
  obtain ⟨ta, tb, ti⟩ := t
  by_cases hi : ti = si
  · subst hi
    cases sa <;> cases sb <;> cases ta <;> cases tb <;> simp_all [slotValue, setSlot]
  · cases sa <;> cases sb <;> cases ta <;> cases tb <;> simp_all [slotValue, setSlot]

/-- The bytes have the arrays, with the `rpra` of `n` buffers. -/
def Shows {sh : AdsprpcShared} (h : Header sh) (n : Nat) (md : Metadata) (mem : Mem) : Prop :=
  ∀ s : Slot, s.i < h.length → (s.arr = .rpra → s.i < n) → (h.field s).get mem = slotValue md s

/-- The memory is the same outside of the arrays. -/
def Framed {sh : AdsprpcShared} (h : Header sh) (mem mem' : Mem) : Prop :=
  ∀ x, x < h.va ∨ h.fdlist ≤ x → mem' x = mem x

section shows

variable {sh : AdsprpcShared} {h : Header sh} {n : Nat} {md : Metadata} {mem : Mem}

theorem Framed.put {mem' : Mem} (hfr : Framed h mem mem') {s : Slot}
    (hi : s.i < h.length) (v : Nat) :
    Framed h mem ((h.field s).put mem' v) := by
  intro x hx
  rw [← hfr x hx]
  apply store_eq_of_apart
  obtain ⟨hlo, hhi⟩ := field_in_header h hi
  rw [length_toLE, field_width]
  omega

/-- A write behind or before the arrays. -/
theorem Shows.store (hs : Shows h n md mem) {a : Nat} {bs : List Byte}
    (hout : a + bs.length ≤ h.va ∨ h.fdlist ≤ a) : Shows h n md (store mem a bs) := by
  intro s hi hn
  rw [← hs s hi hn]
  apply Cell.get_store_of_apart
  obtain ⟨hlo, hhi⟩ := field_in_header h hi
  unfold Cell.Apart
  rw [field_width]
  omega

/-- A write to a field. -/
theorem Shows.put (hs : Shows h n md mem) {s : Slot} (hi : s.i < h.length) (harr : s.arr ≠ .list)
    (v : BitVec 64) : Shows h n (setSlot md s v) ((h.field s).put mem v.toNat) := by
  have hw : s.arr.width = 8 := by
    obtain ⟨sa, sb, si⟩ := s
    cases sa <;> first
      | exact absurd rfl harr
      | rfl
  intro t ht hn
  rw [get_put_field h hi ht mem (by rw [hw]; exact v.isLt), slotValue_setSlot md v harr, hs t ht hn]

theorem Shows.setPv (hs : Shows h n md mem) {i : Nat} (hi : i < h.length) (pv : BitVec 64) :
    Shows h n { md with rpra := Function.update md.rpra i { md.rpra i with pv } }
      ((h.fst .rpra i).put mem pv.toNat) :=
  hs.put (s := ⟨.rpra, false, i⟩) hi nofun pv

/-- A write to both fields of `rpra[i]`. -/
theorem Shows.setBuf (hs : Shows h n md mem) {i : Nat} (hi : i < h.length) (pv len : BitVec 64) :
    Shows h n { md with rpra := Function.update md.rpra i ⟨pv, len⟩ }
      ((h.snd .rpra i).put ((h.fst .rpra i).put mem pv.toNat) len.toNat) := by
  have hboth := (hs.setPv hi pv).put (s := ⟨.rpra, true, i⟩) hi nofun len
  simp only [setSlot, Function.update_idem, Function.update_self] at hboth
  exact hboth

/-- A write to both fields of `pages[i]`. -/
theorem Shows.setPage (hs : Shows h n md mem) {i : Nat} (hi : i < h.length) (page : PhyPage) :
    Shows h n { md with pages := Function.update md.pages i page }
      ((h.snd .pages i).put ((h.fst .pages i).put mem page.addr.toNat) page.size.toNat) := by
  have hboth := (hs.put (s := ⟨.pages, false, i⟩) hi nofun page.addr).put
    (s := ⟨.pages, true, i⟩) hi
    nofun page.size
  simp only [setSlot, Function.update_idem, Function.update_self] at hboth
  exact hboth

/-- `list[i].pgidx` is `i`. -/
def Indexed (h : Header sh) (md : Metadata) : Prop := ∀ i, i < h.length → (md.list i).pgidx = i

theorem Shows.pgidx (hs : Shows h n md mem) (hx : Indexed h md) {i : Nat} (hi : i < h.length) :
    h.pgidx mem i = BitVec.ofNat 32 i := by
  unfold Header.pgidx
  rw [snd_eq_field, hs ⟨.list, true, i⟩ hi nofun]
  simp only [slotValue, hx i hi]

theorem Shows.pv (hs : Shows h n md mem) {i : Nat} (hi : i < h.length) (hn : i < n) :
    h.pv mem i = (md.rpra i).pv := by
  unfold Header.pv
  rw [fst_eq_field, hs ⟨.rpra, false, i⟩ hi (fun _ => hn)]
  simp [slotValue]

theorem Shows.len (hs : Shows h n md mem) {i : Nat} (hi : i < h.length) (hn : i < n) :
    h.len mem i = (md.rpra i).len := by
  unfold Header.len
  rw [snd_eq_field, hs ⟨.rpra, true, i⟩ hi (fun _ => hn)]
  simp [slotValue]

end shows

/-! ## Pages by their index -/

/-- A scalars word counts at most this many buffers and handles. -/
def M_ARGS : Nat := 255 + 255 + 15 + 15

/-- The header of a call lies in the address space. -/
structure Header.Fits {sh : AdsprpcShared} (h : Header sh) : Prop where
  length : h.length ≤ M_ARGS
  space : h.fdlist ≤ 2 ^ 64

section pages

variable {sh : AdsprpcShared} {h : Header sh} {i : Nat}

theorem page_eq (hf : h.Fits) (hi : i < h.length) :
    h.page (BitVec.ofNat 32 i) = h.start .pages + i * sh.sizeof_smq_phy_page := by
  have hlen := hf.length
  have hsmall : i < 2 ^ 31 := by
    unfold M_ARGS at hlen
    omega
  have hsign : (BitVec.ofNat 32 i).signExtend 64 = BitVec.ofNat 64 i := by
    rw [BitVec.signExtend_eq_setWidth_of_msb_false]
    · apply BitVec.eq_of_toNat_eq
      rw [BitVec.toNat_setWidth, BitVec.toNat_ofNat, BitVec.toNat_ofNat]
      omega
    · rw [BitVec.msb_eq_false_iff_two_mul_lt, BitVec.toNat_ofNat]
      omega
  have hentry := entry_le h .pages hi
  have hend := start_le_fdlist h .pages
  have hfit := h.fields.fst_fits .pages
  have hspace := hf.space
  have hsucc : (i + 1) * sh.sizeof_smq_phy_page =
      i * sh.sizeof_smq_phy_page + sh.sizeof_smq_phy_page := Nat.succ_mul ..
  simp only [MetaArray.size, MetaArray.width] at hentry hend hfit
  unfold Header.page
  rw [hsign, ← BitVec.ofNat_mul, ← BitVec.ofNat_add, BitVec.toNat_ofNat,
    Nat.mod_eq_of_lt (by omega)]

theorem page_addr_eq (hf : h.Fits) (hi : i < h.length) :
    h.page_addr (BitVec.ofNat 32 i) = h.field ⟨.pages, false, i⟩ := by
  unfold Header.page_addr
  rw [page_eq hf hi]
  rfl

theorem page_size_eq (hf : h.Fits) (hi : i < h.length) :
    h.page_size (BitVec.ofNat 32 i) = h.field ⟨.pages, true, i⟩ := by
  unfold Header.page_size
  rw [page_eq hf hi]
  rfl

end pages

/-! ## The loops before the copies -/

section loops

variable {sh : AdsprpcShared} {h : Header sh} {n i : Nat} {md : Metadata} {mem : Mem}

/-- The arrays are clear. -/
theorem shows_zero (hmem : ∀ x, h.va ≤ x → x < h.fdlist → mem x = 0) : Shows h n .zero mem := by
  intro s hi _
  obtain ⟨hlo, hhi⟩ := field_in_header h hi
  rw [Cell.get_eq_zero (fun x h1 h2 => hmem x (by omega) (by rw [field_width] at h2; omega))]
  obtain ⟨sa, sb, si⟩ := s
  cases sa <;> cases sb <;> rfl

/-- The loop writes to `list` only, and fills the entries that it has seen. -/
theorem list_loop_get (c : Call) (hlen : h.length ≤ M_ARGS) {m : Nat} (hm : i + m ≤ h.length)
    {s : Slot} (hs : s.i < h.length) :
    (h.field s).get (list_loop h c m i mem) =
      if s.arr = .list ∧ i ≤ s.i ∧ s.i < i + m then
        if s.snd then s.i else if c.lpraLen s.i ≠ 0 then 1 else 0
      else (h.field s).get mem := by
  induction m generalizing i mem with
  | zero =>
    rw [if_neg (by omega)]
    rfl
  | succ m ih =>
    have hi : i < h.length := by omega
    have hone : (if c.lpraLen i ≠ 0 then 1 else 0) < 256 ^ MetaArray.list.width := by
      split <;> decide
    have hidx : i < 256 ^ MetaArray.list.width := by
      unfold M_ARGS at hlen
      simp only [MetaArray.width]
      omega
    rw [list_loop, ih (by omega), fst_eq_field, snd_eq_field, get_put_field h hi hs _ hidx,
      get_put_field h hi hs _ hone]
    obtain ⟨sa, sb, si⟩ := s
    by_cases hsi : si = i
    · subst hsi
      cases sa <;> cases sb <;> simp
    · have hrange : (i + 1 ≤ si ∧ si < i + 1 + m) ↔ (i ≤ si ∧ si < i + (m + 1)) := by omega
      dsimp only
      simp only [hrange]
      simp [hsi]

theorem list_loop_shows {c : Call} (hs : Shows h n .zero mem) (hlen : h.length ≤ M_ARGS)
    (hc : h.length = c.length) :
    Shows h n (hybrid_marshal.list_loop c .zero) (list_loop h c h.length 0 mem) := by
  intro s hi hn
  rw [list_loop_get c hlen (by omega) hi]
  obtain ⟨sa, sb, si⟩ := s
  have hlt : si < c.length := by
    rw [← hc]
    exact hi
  have hold := hs _ hi hn
  cases sa
  · cases sb <;> simpa [slotValue, hybrid_marshal.list_loop] using hold
  · cases sb <;> simp [slotValue, hybrid_marshal.list_loop, hlt, hi]
  · cases sb <;> simpa [slotValue, hybrid_marshal.list_loop] using hold

theorem list_loop_framed (c : Call) {m : Nat} {mem' : Mem} (hfr : Framed h mem mem')
    (hm : i + m ≤ h.length) : Framed h mem (list_loop h c m i mem') := by
  induction m generalizing i mem' with
  | zero => exact hfr
  | succ m ih =>
    have hi : i < h.length := by omega
    exact ih ((hfr.put (s := ⟨.list, false, i⟩) hi _).put (s := ⟨.list, true, i⟩) hi _) (by omega)

theorem indexed_list_loop {c : Call} (hc : h.length = c.length) :
    Indexed h (hybrid_marshal.list_loop c .zero) := by
  intro i hi
  rw [hc] at hi
  simp [hybrid_marshal.list_loop, hi]

/-- Both loops fill `rpra` and the pages of the buffers with a map. -/
theorem map_loop_shows (hf : h.Fits) {as : List Arg} {mem' : Mem} (hs : Shows h n md mem)
    (hx : Indexed h md) (hi : i + as.length ≤ n) (hn : n ≤ h.length)
    {mem₀ : Mem} (hfr : Framed h mem₀ mem) (hrun : map_loop h i as mem = .ok mem') :
    ∃ md', hybrid_marshal.map_loop i as md = .ok md' ∧ Shows h n md' mem' ∧ md'.list = md.list ∧
      Framed h mem₀ mem' := by
  induction as generalizing i md mem with
  | nil =>
    cases hrun
    exact ⟨md, rfl, hs, rfl, hfr⟩
  | cons a as ih =>
    rw [List.length_cons] at hi
    have hlt : i < h.length := by omega
    have hs1 := hs.setBuf hlt 0 a.len
    have hf1 := (hfr.put (s := ⟨.rpra, false, i⟩) hlt 0).put (s := ⟨.rpra, true, i⟩) hlt a.len.toNat
    unfold map_loop at hrun
    unfold hybrid_marshal.map_loop
    dsimp only at hrun ⊢
    by_cases h0 : a.len = 0
    · simp only [h0, if_true] at hrun ⊢
      rw [h0] at hs1 hf1
      exact ih hs1 hx (by omega) hf1 hrun
    simp only [h0, if_false] at hrun ⊢
    rcases ha : a.map with _ | m
    · simp only [ha] at hrun ⊢
      have hs2 := hs1.setPv hlt a.pv
      simp only [Function.update_idem, Function.update_self] at hs2
      exact ih hs2 hx (by omega) (hf1.put (s := ⟨.rpra, false, i⟩) hlt _) hrun
    · simp only [ha] at hrun ⊢
      rcases hp : map_pages a m with e | page
      · simp [hp] at hrun
      simp only [hp] at hrun ⊢
      have hidx : h.pgidx ((h.snd .rpra i).put ((h.fst .rpra i).put mem 0) a.len.toNat) i =
        BitVec.ofNat 32 i := hs1.pgidx hx hlt
      rw [hidx, page_addr_eq hf hlt, page_size_eq hf hlt] at hrun
      have hs2 := (hs1.setPage hlt page).setPv hlt a.pv
      simp only [Function.update_idem, Function.update_self] at hs2
      have hf2 := ((hf1.put (s := ⟨.pages, false, i⟩) hlt page.addr.toNat).put
        (s := ⟨.pages, true, i⟩) hlt page.size.toNat).put (s := ⟨.rpra, false, i⟩) hlt a.pv.toNat
      rw [hx i hlt]
      exact ih hs2 hx (by omega) hf2 hrun

/-- Both loops find the same maps again. -/
theorem handle_loop_shows {hs' : List Handle} (hs : Shows h n md mem)
    (hi : i + hs'.length ≤ h.length)
    {mem₀ : Mem} (hfr : Framed h mem₀ mem) :
    (handle_loop h i hs' mem).2 = (hybrid_marshal.handle_loop i hs' md).2 ∧
      Shows h n (hybrid_marshal.handle_loop i hs' md).1 (handle_loop h i hs' mem).1 ∧
      Framed h mem₀ (handle_loop h i hs' mem).1 := by
  induction hs' generalizing i md mem with
  | nil => exact ⟨rfl, hs, hfr⟩
  | cons hd hs' ih =>
    rw [List.length_cons] at hi
    unfold handle_loop hybrid_marshal.handle_loop
    rcases hd.map with _ | _ | ⟨da, size⟩
    · exact ih hs (by omega) hfr
    · exact ⟨rfl, hs, hfr⟩
    · have hlt : i < h.length := by omega
      exact ih (hs.setPage hlt ⟨da, size⟩) (by omega)
        ((hfr.put (s := ⟨.pages, false, i⟩) hlt _).put (s := ⟨.pages, true, i⟩) hlt _)

/-- The entry of a dma handle is behind those of the buffers. -/
theorem Shows.putDma (hs : Shows h n md mem) (hi : i < h.length) (hn : n ≤ i) {off : Nat}
    (hoff : off + 4 ≤ sh.sizeof_remote_arg64) (v : Nat) :
    Shows h n md ((Cell.mk (h.start .rpra + i * sh.sizeof_remote_arg64 + off) 4).put mem v) := by
  intro s hsi hsn
  rw [← hs s hsi hsn]
  apply Cell.get_put_of_apart
  obtain ⟨hlo, hhi⟩ := field_bounds h s
  have hsucc : (i + 1) * sh.sizeof_remote_arg64 = i * sh.sizeof_remote_arg64 +
    sh.sizeof_remote_arg64 := Nat.succ_mul ..
  unfold Cell.Apart
  rw [field_width]
  dsimp only
  by_cases harr : s.arr = .rpra
  · have hle : (s.i + 1) * sh.sizeof_remote_arg64 ≤ i * sh.sizeof_remote_arg64 :=
      Nat.mul_le_mul_right _ (by have := hsn harr; omega)
    rw [harr] at hhi ⊢
    simp only [MetaArray.size] at hhi
    omega
  · have hentry := entry_le h .rpra hi
    rcases arrays_apart h (Ne.symm harr) with hap | hap
    · simp only [MetaArray.size] at hentry hap
      omega
    · have hend := entry_le h s.arr hsi
      omega

theorem dma_loop_shows {hs' : List Handle} (hs : Shows h n md mem) (hi : i + hs'.length ≤ h.length)
    (hn : n ≤ i) : Shows h n md (dma_loop h i hs' mem) := by
  obtain ⟨hfd, hlen, hoff⟩ := h.fields.dma_fits
  induction hs' generalizing i mem with
  | nil => exact hs
  | cons hd hs' ih =>
    rw [List.length_cons] at hi
    have hlt : i < h.length := by omega
    exact ih (((hs.putDma hlt hn hfd _).putDma hlt hn hlen _).putDma hlt hn hoff _) (by omega)
      (by omega)

/-- The dma handles have arrays of their own as values. -/
theorem Shows.dma (hs : Shows h n md mem) (c : Call) :
    Shows h n (hybrid_marshal.dma_loop c md) mem := by
  intro s hi hn
  rw [hs s hi hn]
  obtain ⟨sa, sb, si⟩ := s
  unfold hybrid_marshal.dma_loop
  split <;> cases sa <;> cases sb <;> rfl

end loops

/-! ## The entries of a copy -/

section entries

variable {sh : AdsprpcShared} {h : Header sh} {n i : Nat} {md : Metadata} {mem : Mem}

/-- A turn of the copy loop writes to the entries of its own buffer, and finds the place of the
buffer in them. -/
theorem set_entries_shows (hf : h.Fits) (hs : Shows h n md mem) (hx : Indexed h md) (hi : i < n)
    (hn : n ≤ h.length) (pv addr len : BitVec 64) :
    Shows h n { md with
        rpra := Function.update md.rpra i { md.rpra i with pv }
        pages := Function.update md.pages (md.list i).pgidx
          ⟨buf_page_start addr, buf_num_pages pv len * BitVec.ofNat 64 PAGE_SIZE⟩ }
      (set_entries h i pv addr len mem) := by
  have hlt : i < h.length := by omega
  have hs1 := hs.setPv hlt pv
  have hs2 := hs1.put (s := ⟨.pages, false, i⟩) hlt nofun addr
  have haddr := hs2 ⟨.pages, false, i⟩ hlt nofun
  have hs3 := hs2.put (s := ⟨.pages, false, i⟩) hlt nofun (buf_page_start addr)
  have hpv := hs3.pv hlt hi
  have hs4 := hs3.put (s := ⟨.pages, true, i⟩) hlt nofun
    (buf_num_pages pv len * BitVec.ofNat 64 PAGE_SIZE)
  have hi1 := hs1.pgidx hx hlt
  have hi2 := hs2.pgidx hx hlt
  have hi3 := hs3.pgidx hx hlt
  simp only [setSlot, slotValue, Function.update_self] at haddr hpv
  simp only [setSlot, Function.update_idem, Function.update_self] at hs4
  unfold set_entries
  dsimp only
  rw [hi1, page_addr_eq hf hlt, hi2, page_addr_eq hf hlt, haddr, BitVec.ofNat_toNat,
    BitVec.setWidth_eq, hi3, page_size_eq hf hlt, hpv, hx i hlt]
  exact hs4

end entries

end virtual_fastrpc.hybrid_bytes
