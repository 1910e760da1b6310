-- Who holds the buffers of a hybrid session: its contexts, the list of the user
-- heap, the persistent headers, and the requests that make these. A step is one
-- buffer operation, or the part of a request between two of them.
import PlatformKernel.BufferPool
import PlatformKernel.HybridMarshal
import Mathlib.Data.List.Perm.Basic

namespace virtual_fastrpc.buffer_owners

open virtual_fastrpc.buffers (BufType PAGE_SIZE PAGE_ALIGN ALIGN BALIGN)
open virtual_fastrpc.buffer_pool keyed step_runs

/-! ## What an owner holds -/

/-- The places of the buffers of a pool: the cache, the list of the user heap, and the other
owners. -/
def places (p : Pool) (held : List Nat) : List Nat := p.cached_bufs ++ (p.remote_bufs ++ held)

/-- Every buffer that is not free is in one place. A chunk of the persistent headers is in one
when it is in use, and only with one of the other owners. -/
structure Owned (p : Pool) (held : List Nat) : Prop where
  unique : Unique Buf.id p.bufs
  below : ∀ b ∈ p.bufs, b.id < p.next
  nodup : (places p held).Nodup
  live : ∀ id ∈ places p held, ∃ b, p.buf id = some b
  placed : ∀ id b, p.buf id = some b →
    (id ∈ places p held ↔ (id ∈ p.hdr_bufs → b.pers_hdr_in_use = true))
  chunk : ∀ id ∈ p.hdr_bufs, (∃ b, p.buf id = some b ∧ b.size = PAGE_SIZE ∧ b.va = true) ∧
    id ∉ p.cached_bufs ∧ id ∉ p.remote_bufs
  plain : ∀ id b, p.buf id = some b → id ∉ p.hdr_bufs → b.pers_hdr_in_use = false
  mapped : ∀ id b, p.buf id = some b → b.type ≠ some .USERHEAP → b.va = true ∧ PAGE_SIZE ∣ b.size
  heap : ∀ id b, p.buf id = some b → (b.type = some .USERHEAP ↔ id ∈ p.remote_bufs)
  count : p.num_cached_buf = p.cached_bufs.length

theorem owned_init : Owned Pool.init [] where
  unique := List.nodup_nil
  below := by simp [Pool.init]
  nodup := List.nodup_nil
  live := by simp [places, Pool.init]
  placed := by intro id b h; cases h
  chunk := by simp [Pool.init]
  plain := by intro id b h; cases h
  mapped := by intro id b h; cases h
  heap := by intro id b h; cases h
  count := rfl

/-- The owners may change hands. -/
theorem Owned.perm {p : Pool} {held held' : List Nat} (h : Owned p held) (hp : held.Perm held') :
    Owned p held' := by
  have hpl : (places p held).Perm (places p held') := (hp.append_left _).append_left _
  refine ⟨h.unique, h.below, hpl.nodup_iff.mp h.nodup, ?_, ?_, h.chunk, h.plain, h.mapped, h.heap,
    h.count⟩
  · intro id hid
    exact h.live id (hpl.mem_iff.mpr hid)
  · intro id b hb
    rw [← hpl.mem_iff]
    exact h.placed id b hb

/-! ## The lookups after a change -/

theorem buf_setBuf_self {p : Pool} {id : Nat} {f : Buf → Buf} {b : Buf} (hb : p.buf id = some b)
    (hf : ∀ x, (f x).id = x.id) : (p.setBuf id f).buf id = some (f b) := by
  have := lookup_update_self (l := p.bufs) (k := id) hf
  exact this.trans (by rw [show lookup Buf.id p.bufs id = some b from hb]; rfl)

theorem buf_setBuf_ne {p : Pool} {id j : Nat} {f : Buf → Buf} (hf : ∀ x, (f x).id = x.id)
    (h : j ≠ id) : (p.setBuf id f).buf j = p.buf j := lookup_update_ne hf h

/-- The buffers after one of them has changed. -/
theorem buf_setBuf_some {p : Pool} {id j : Nat} {f : Buf → Buf} {b c : Buf}
    (hb : p.buf id = some b) (hf : ∀ x, (f x).id = x.id) (hc : (p.setBuf id f).buf j = some c) :
    (j = id ∧ c = f b) ∨ (j ≠ id ∧ p.buf j = some c) := by
  by_cases hj : j = id
  · subst hj
    exact Or.inl ⟨rfl, Option.some.inj (hc.symm.trans (buf_setBuf_self hb hf))⟩
  · exact Or.inr ⟨hj, (buf_setBuf_ne hf hj).symm.trans hc⟩

theorem setBuf_below {p : Pool} {id : Nat} {f : Buf → Buf} (hf : ∀ x, (f x).id = x.id)
    (h : ∀ b ∈ p.bufs, b.id < p.next) : ∀ b ∈ (p.setBuf id f).bufs, b.id < p.next := by
  intro b hb
  rcases mem_update.mp hb with ⟨hb, _⟩ | ⟨a, ha, _, rfl⟩
  · exact h b hb
  · rw [hf]
    exact h a ha

/-! ## A buffer that moves -/

variable {p p' : Pool} {held held' : List Nat} {size : Nat} {nomap : Bool}
  {ty : BufType} {e : AllocEnv}

/-- One buffer changes and moves: the other buffers stay where they are. -/
theorem Owned.move {b : Buf} {f : Buf → Buf} (h : Owned p held) (hb : p.buf b.id = some b)
    (hid : ∀ x, (f x).id = x.id) (hbufs : p'.bufs = (p.setBuf b.id f).bufs)
    (hfix : p'.next = p.next ∧ p'.hdr_bufs = p.hdr_bufs ∧ p'.remote_bufs = p.remote_bufs)
    (hmem : (f b).size = b.size ∧ (f b).va = b.va ∧
      ((f b).type = some .USERHEAP ↔ b.type = some .USERHEAP))
    (hothers : ∀ j, j ≠ b.id → (j ∈ places p' held' ↔ j ∈ places p held))
    (hself : b.id ∈ places p' held' ↔ (b.id ∈ p.hdr_bufs → (f b).pers_hdr_in_use = true))
    (hplain : b.id ∉ p.hdr_bufs → (f b).pers_hdr_in_use = b.pers_hdr_in_use)
    (hchunk : ∀ j ∈ p.hdr_bufs, j ∉ p'.cached_bufs) (hnodup : (places p' held').Nodup)
    (hcount : p'.num_cached_buf = p'.cached_bufs.length) : Owned p' held' := by
  obtain ⟨hnext, hhdr, hremote⟩ := hfix
  obtain ⟨hsize, hva, htype⟩ := hmem
  have hlook : ∀ j, p'.buf j = (p.setBuf b.id f).buf j := by
    intro j
    unfold Pool.buf
    rw [hbufs]
  have hnew : p'.buf b.id = some (f b) := (hlook _).trans (buf_setBuf_self hb hid)
  have hold : ∀ {j c}, j ≠ b.id → p.buf j = some c → p'.buf j = some c :=
    fun hj hc => (hlook _).trans ((buf_setBuf_ne hid hj).trans hc)
  have hsome : ∀ {j c}, p'.buf j = some c → (j = b.id ∧ c = f b) ∨ (j ≠ b.id ∧ p.buf j = some c) :=
    fun hc => buf_setBuf_some hb hid ((hlook _).symm.trans hc)
  refine ⟨?_, ?_, hnodup, ?_, ?_, ?_, ?_, ?_, ?_, hcount⟩
  · rw [hbufs]
    exact h.unique.update hid
  · rw [hbufs, hnext]
    exact setBuf_below hid h.below
  · intro j hj
    by_cases hjb : j = b.id
    · exact ⟨f b, hjb ▸ hnew⟩
    · obtain ⟨c, hc⟩ := h.live j ((hothers j hjb).mp hj)
      exact ⟨c, hold hjb hc⟩
  · intro j c hc
    rw [hhdr]
    rcases hsome hc with ⟨rfl, rfl⟩ | ⟨hjb, hc⟩
    · exact hself
    · rw [hothers j hjb]
      exact h.placed j c hc
  · intro j hj
    rw [hhdr] at hj
    obtain ⟨⟨c, hc, hcs, hcv⟩, _, hnr⟩ := h.chunk j hj
    refine ⟨?_, hchunk j hj, hremote ▸ hnr⟩
    by_cases hjb : j = b.id
    · subst hjb
      rw [hb] at hc
      cases hc
      exact ⟨f b, hnew, hsize.trans hcs, hva.trans hcv⟩
    · exact ⟨c, hold hjb hc, hcs, hcv⟩
  · intro j c hc hj
    rw [hhdr] at hj
    rcases hsome hc with ⟨rfl, rfl⟩ | ⟨_, hc⟩
    · exact (hplain hj).trans (h.plain _ b hb hj)
    · exact h.plain j c hc hj
  · intro j c hc hct
    rcases hsome hc with ⟨rfl, rfl⟩ | ⟨_, hc⟩
    · rw [hsize, hva]
      exact h.mapped _ b hb (fun ht => hct (htype.mpr ht))
    · exact h.mapped j c hc hct
  · intro j c hc
    rw [hremote]
    rcases hsome hc with ⟨rfl, rfl⟩ | ⟨_, hc⟩
    · exact htype.trans (h.heap _ b hb)
    · exact h.heap j c hc

/-- The places when the first of the other owners is looked at on its own. -/
theorem places_cons (p : Pool) (id : Nat) (held : List Nat) :
    (places p (id :: held)).Perm (id :: places p held) := by
  unfold places
  rw [← List.append_assoc, ← List.append_assoc]
  exact List.perm_middle

/-- A buffer of an owner is in no other place. -/
theorem Owned.held_only {id : Nat} (h : Owned p (id :: held)) : id ∉ places p held :=
  (List.nodup_cons.mp ((places_cons p id held).nodup_iff.mp h.nodup)).1

/-- A buffer of an owner is not for the user heap. -/
theorem Owned.held_cold {id : Nat} {b : Buf} (h : Owned p (id :: held)) (hb : p.buf id = some b) :
    b.type ≠ some .USERHEAP := by
  intro ht
  apply h.held_only
  exact List.mem_append_right _ (List.mem_append_left _ ((h.heap id b hb).mp ht))

/-! ## Allocation -/

/-- A chunk that is not in use goes to an owner. -/
theorem Owned.take_hdr {id : Nat} (h : Owned p held)
    (hg : get_persistent_buf p size ty = some (p', id)) : Owned p' (id :: held) := by
  obtain ⟨hid, ⟨b, hb, hfree⟩, rfl, _, _⟩ := get_persistent_some hg
  have hkey : b.id = id := key_of_lookup hb
  subst hkey
  have hnew : b.id ∉ places p held := by
    intro hm
    have := (h.placed _ b hb).mp hm hid
    rw [hfree] at this
    cases this
  have hpl : (places (p.setBuf b.id (.setInUse true)) (b.id :: held)).Perm
    (b.id :: places p held) :=
    places_cons p b.id held
  refine h.move (f := .setInUse true) hb (fun _ => rfl) rfl ⟨rfl, rfl, rfl⟩ ⟨rfl, rfl, Iff.rfl⟩
    ?_ ?_ (fun hno => absurd hid hno) (fun j hj => (h.chunk j hj).2.1)
    (hpl.nodup_iff.mpr (List.nodup_cons.mpr ⟨hnew, h.nodup⟩)) h.count
  · intro j hj
    rw [hpl.mem_iff, List.mem_cons]
    simp [hj]
  · rw [hpl.mem_iff]
    simp [Buf.setInUse]

/-- A buffer of the cache goes to an owner. -/
theorem Owned.take_cached {b : Buf} (h : Owned p held) (hf : find_cached p size = some b)
    (hty : ty ≠ .USERHEAP) : Owned (taken .hybrid p b ty) (b.id :: held) := by
  obtain ⟨hin, hb, _, _⟩ := find_cached_some hf
  -- the buffer leaves the cache for its owner
  have hpl : (places (taken .hybrid p b ty) (b.id :: held)).Perm (places p held) :=
    (places_cons _ b.id held).trans ((List.perm_cons_erase hin).symm.append_right _)
  have hnorem : b.id ∉ p.remote_bufs := by
    intro hr
    exact (List.disjoint_of_nodup_append h.nodup) hin (List.mem_append_left _ hr)
  refine h.move (f := .setType (some ty)) hb (fun _ => rfl) rfl ⟨rfl, rfl, rfl⟩ ⟨rfl, rfl, ?_⟩ ?_ ?_
    (fun _ => rfl) ?_ (hpl.nodup_iff.mpr h.nodup) ?_
  · rw [h.heap _ b hb]
    simp [Buf.setType, hty, hnorem]
  · intro j _
    exact hpl.mem_iff
  · rw [hpl.mem_iff]
    exact h.placed _ b hb
  · intro j hj hm
    exact (h.chunk j hj).2.1 (List.mem_of_mem_erase hm)
  · show p.num_cached_buf - 1 = ((p.cached_bufs.erase b.id).length : Int)
    have hpos := List.length_pos_of_mem hin
    rw [h.count, List.length_erase_of_mem hin]
    omega

/-- The pool with a buffer that comes to it. -/
def withNew (p : Pool) (b : Buf) (remote_bufs : List Nat) : Pool :=
  { p with bufs := b :: p.bufs, next := p.next + 1, remote_bufs }

/-- A new buffer comes to one place. -/
theorem Owned.add_new {b : Buf} {remote_bufs : List Nat} (h : Owned p held) (hid : b.id = p.next)
    (huse : b.pers_hdr_in_use = false)
    (hmap : b.type ≠ some .USERHEAP → b.va = true ∧ PAGE_SIZE ∣ b.size)
    (hremote : ∀ j, j ∈ remote_bufs ↔ j ∈ p.remote_bufs ∨ (j = b.id ∧ b.type = some .USERHEAP))
    (hpl : (places (withNew p b remote_bufs) held').Perm (b.id :: places p held)) :
    Owned (withNew p b remote_bufs) held' := by
  have hnone : ∀ c ∈ p.bufs, c.id ≠ b.id := by
    intro c hc
    have := h.below c hc
    omega
  have hlook : p.buf b.id = none := lookup_eq_none.mpr hnone
  have hself : (withNew p b remote_bufs).buf b.id = some b := lookup_cons_self b
  have hother : ∀ {j}, j ≠ b.id → (withNew p b remote_bufs).buf j = p.buf j :=
    fun hj => lookup_cons_ne (fun he => hj he.symm)
  have hold : ∀ {j c}, p.buf j = some c → j ≠ b.id ∧ (withNew p b remote_bufs).buf j = some c := by
    intro j c hc
    have hj : j ≠ b.id := by
      rintro rfl
      rw [hlook] at hc
      cases hc
    exact ⟨hj, (hother hj).trans hc⟩
  have hsome : ∀ {j c}, (withNew p b remote_bufs).buf j = some c →
      (j = b.id ∧ c = b) ∨ (j ≠ b.id ∧ p.buf j = some c) := by
    intro j c hc
    by_cases hj : j = b.id
    · subst hj
      exact Or.inl ⟨rfl, Option.some.inj (hc.symm.trans hself)⟩
    · exact Or.inr ⟨hj, (hother hj).symm.trans hc⟩
  have hnew : b.id ∉ places p held := by
    intro hm
    obtain ⟨c, hc⟩ := h.live _ hm
    rw [hlook] at hc
    cases hc
  have hnohdr : b.id ∉ p.hdr_bufs := by
    intro hm
    obtain ⟨⟨c, hc, _⟩, _⟩ := h.chunk _ hm
    rw [hlook] at hc
    cases hc
  refine ⟨h.unique.cons hnone, ?_, hpl.nodup_iff.mpr (List.nodup_cons.mpr ⟨hnew, h.nodup⟩),
    ?_, ?_, ?_, ?_, ?_, ?_, h.count⟩
  · intro c hc
    show c.id < p.next + 1
    rcases List.mem_cons.mp hc with rfl | hc
    · omega
    · have := h.below c hc
      omega
  · intro j hj
    rcases List.mem_cons.mp (hpl.mem_iff.mp hj) with rfl | hj
    · exact ⟨b, hself⟩
    · obtain ⟨c, hc⟩ := h.live j hj
      exact ⟨c, (hold hc).2⟩
  · intro j c hc
    show j ∈ places _ held' ↔ (j ∈ p.hdr_bufs → _)
    rw [hpl.mem_iff, List.mem_cons]
    rcases hsome hc with ⟨rfl, rfl⟩ | ⟨hj, hc⟩
    · simp [hnohdr]
    · simp only [hj, false_or]
      exact h.placed j c hc
  · intro j hj
    obtain ⟨⟨c, hc, hcs⟩, hnc, hnr⟩ := h.chunk j hj
    refine ⟨⟨c, (hold hc).2, hcs⟩, hnc, ?_⟩
    intro hr
    rcases (hremote j).mp hr with hr | ⟨hjb, _⟩
    · exact hnr hr
    · exact (hold hc).1 hjb
  · intro j c hc hj
    rcases hsome hc with ⟨_, rfl⟩ | ⟨_, hc⟩
    · exact huse
    · exact h.plain j c hc hj
  · intro j c hc hct
    rcases hsome hc with ⟨_, rfl⟩ | ⟨_, hc⟩
    · exact hmap hct
    · exact h.mapped j c hc hct
  · intro j c hc
    show _ ↔ j ∈ remote_bufs
    rw [hremote]
    rcases hsome hc with ⟨rfl, rfl⟩ | ⟨hj, hc⟩
    · constructor
      · intro ht
        exact Or.inr ⟨rfl, ht⟩
      · rintro (hr | ⟨_, ht⟩)
        · exact absurd (List.mem_append_right _ (List.mem_append_left _ hr)) hnew
        · exact ht
    · simp only [hj, false_and, or_false]
      exact h.heap j c hc

theorem PAGE_SIZE_dvd_PAGE_ALIGN (size : Nat) : PAGE_SIZE ∣ PAGE_ALIGN size := Dvd.intro_left _ rfl

/-- An allocation for a kernel buffer gives it to the owner that asked. -/
theorem Owned.alloc {id : Nat} (h : Owned p held) (hty : ty ≠ .USERHEAP)
    (ha : buf_alloc .hybrid p size false ty e = (p', some id)) : Owned p' (id :: held) := by
  rcases buf_alloc_cases ha with ⟨hr, _⟩ | ⟨i, hr, _, hg⟩ | ⟨b, hr, hf, _, rfl⟩ | ⟨hr, rfl⟩
  · cases hr
  · cases hr
    exact h.take_hdr hg
  · cases hr
    exact h.take_cached hf hty
  · cases hr
    rw [if_neg hty]
    refine h.add_new (b := new_buf .hybrid p size false ty) rfl rfl ?_ ?_ (places_cons _ _ _)
    · intro _
      refine ⟨rfl, ?_⟩
      show PAGE_SIZE ∣ if ty = .USERHEAP then size else PAGE_ALIGN size
      rw [if_neg hty]
      exact PAGE_SIZE_dvd_PAGE_ALIGN size
    · intro j
      simp [new_buf, hty]

/-- An allocation for the user heap puts the buffer on the list of the session. -/
theorem Owned.alloc_heap {id : Nat} (h : Owned p held)
    (ha : buf_alloc .hybrid p size nomap .USERHEAP e = (p', some id)) : Owned p' held := by
  rcases buf_alloc_cases ha with ⟨hr, _⟩ | ⟨i, _, _, hg⟩ | ⟨b, _, _, hty, _⟩ | ⟨hr, rfl⟩
  · cases hr
  · obtain ⟨_, _, _, hty, _⟩ := get_persistent_some hg
    cases hty
  · exact absurd rfl hty
  · cases hr
    rw [if_pos rfl]
    refine h.add_new (b := new_buf .hybrid p size nomap .USERHEAP) rfl rfl (fun ht => absurd rfl ht)
      ?_ List.perm_middle
    intro j
    simp [new_buf, or_comm]

/-! ## The release -/

/-- A buffer that is no chunk goes away with its place. -/
theorem Owned.release {b : Buf} (h : Owned p held) (hno : b.id ∉ p.hdr_bufs)
    (hpl : (places p held).Perm (b.id :: places (release p b) held')) :
    Owned (release p b) held' := by
  have hlook : ∀ {j}, j ≠ b.id → (buffer_pool.release p b).buf j = p.buf j :=
    fun hj => lookup_remove_ne hj
  have hgone : (buffer_pool.release p b).buf b.id = none :=
    lookup_eq_none.mpr (fun x hx => (mem_remove.mp hx).2)
  have hsome : ∀ {j c}, (buffer_pool.release p b).buf j = some c → j ≠ b.id ∧ p.buf j = some c := by
    intro j c hc
    have hj : j ≠ b.id := by
      rintro rfl
      rw [hgone] at hc
      cases hc
    exact ⟨hj, (hlook hj).symm.trans hc⟩
  obtain ⟨hfree, hnodup⟩ := List.nodup_cons.mp (hpl.nodup_iff.mp h.nodup)
  have hremote : ∀ j, j ∈ (buffer_pool.release p b).remote_bufs → j ∈ p.remote_bufs := by
    intro j hj
    simp only [buffer_pool.release] at hj
    split at hj
    · exact List.mem_of_mem_erase hj
    · exact hj
  have hkeep : ∀ j, j ≠ b.id → j ∈ p.remote_bufs → j ∈ (buffer_pool.release p b).remote_bufs := by
    intro j hj hm
    simp only [buffer_pool.release]
    split
    · exact (List.mem_erase_of_ne hj).mpr hm
    · exact hm
  refine ⟨h.unique.remove, ?_, hnodup, ?_, ?_, ?_, ?_, ?_, ?_, h.count⟩
  · intro c hc
    exact h.below c (mem_remove.mp hc).1
  · intro j hj
    have hjb : j ≠ b.id := fun he => hfree (he ▸ hj)
    obtain ⟨c, hc⟩ := h.live j (hpl.mem_iff.mpr (List.mem_cons_of_mem _ hj))
    exact ⟨c, (hlook hjb).trans hc⟩
  · intro j c hc
    obtain ⟨hj, hc⟩ := hsome hc
    have hwas := h.placed j c hc
    rw [hpl.mem_iff, List.mem_cons] at hwas
    simp only [hj, false_or] at hwas
    exact hwas
  · intro j hj
    have hjb : j ≠ b.id := fun he => hno (he ▸ hj)
    obtain ⟨⟨c, hc, hcs⟩, hnc, hnr⟩ := h.chunk j hj
    exact ⟨⟨c, (hlook hjb).trans hc, hcs⟩, hnc, fun hr => hnr (hremote j hr)⟩
  · intro j c hc
    exact h.plain j c (hsome hc).2
  · intro j c hc
    exact h.mapped j c (hsome hc).2
  · intro j c hc
    obtain ⟨hj, hc⟩ := hsome hc
    rw [h.heap j c hc]
    exact ⟨hkeep j hj, hremote j⟩

/-- The end of a buffer of an owner: back to its chunk, into the cache, or away. -/
theorem Owned.free {b : Buf} (h : Owned p (b.id :: held)) (hb : p.buf b.id = some b)
    (cache : Bool) :
    Owned (buf_free .hybrid p b cache) held := by
  have hcold := h.held_cold hb
  have honly := h.held_only
  have hpl := places_cons p b.id held
  have hnodup : (places p held).Nodup := (List.nodup_cons.mp (hpl.nodup_iff.mp h.nodup)).2
  have hothers : ∀ j, j ≠ b.id → (j ∈ places p held ↔ j ∈ places p (b.id :: held)) := by
    intro j hj
    rw [hpl.mem_iff, List.mem_cons]
    simp [hj]
  rcases buf_free_cases .hybrid p b cache with ⟨_, huse, he⟩ | ⟨hplain, _, he⟩ | ⟨hplain, _, he⟩
  · -- only a chunk is in use
    have hchunk : b.id ∈ p.hdr_bufs := by
      by_contra hno
      rw [h.plain _ b hb hno] at huse
      cases huse
    rw [he]
    refine h.move (f := .setInUse false) hb (fun _ => rfl) rfl ⟨rfl, rfl, rfl⟩ ⟨rfl, rfl, Iff.rfl⟩
      hothers ?_ (fun hno => absurd hchunk hno) (fun j hj => (h.chunk j hj).2.1) hnodup h.count
    show b.id ∈ places p held ↔ _
    simp [honly, Buf.setInUse, hchunk]
  · have hno : b.id ∉ p.hdr_bufs := by
      intro hchunk
      have := (h.placed _ b hb).mp (hpl.mem_iff.mpr List.mem_cons_self) hchunk
      rw [hplain rfl] at this
      cases this
    have hnew : (places (add_cached p b) held).Perm (b.id :: places p held) := List.Perm.refl _
    rw [he]
    refine h.move (f := .setType none) hb (fun _ => rfl) rfl ⟨rfl, rfl, rfl⟩ ⟨rfl, rfl, ?_⟩ ?_ ?_
      (fun _ => rfl) ?_ (hnew.nodup_iff.mpr (List.nodup_cons.mpr ⟨honly, hnodup⟩)) ?_
    · simp [Buf.setType, hcold]
    · intro j _
      rw [hnew.mem_iff, hpl.mem_iff]
    · rw [hnew.mem_iff]
      simp [hno]
    · intro j hj hm
      rcases List.mem_cons.mp hm with rfl | hm
      · exact hno hj
      · exact (h.chunk j hj).2.1 hm
    · show p.num_cached_buf + 1 = ((b.id :: p.cached_bufs).length : Int)
      rw [h.count]
      simp
  · have hno : b.id ∉ p.hdr_bufs := by
      intro hchunk
      have := (h.placed _ b hb).mp (hpl.mem_iff.mpr List.mem_cons_self) hchunk
      rw [hplain rfl] at this
      cases this
    rw [he]
    refine h.release hno ?_
    have hsame : places (buffer_pool.release p b) held = places p held := by
      simp [places, buffer_pool.release, hcold]
    rw [hsame]
    exact hpl

/-- The end of a buffer of the user heap. -/
theorem Owned.free_heap {b : Buf} (h : Owned p held) (hb : p.buf b.id = some b)
    (hr : b.id ∈ p.remote_bufs) : Owned (buf_free .hybrid p b false) held := by
  have hheap : b.type = some .USERHEAP := (h.heap _ b hb).mpr hr
  have hno : b.id ∉ p.hdr_bufs := fun hc => (h.chunk _ hc).2.2 hr
  have hplain := h.plain _ b hb hno
  have he : buf_free .hybrid p b false = buffer_pool.release p b := by
    simp [buf_free, hplain, caches]
  rw [he]
  refine h.release hno ?_
  have hrem : (buffer_pool.release p b).remote_bufs = p.remote_bufs.erase b.id := by
    simp [buffer_pool.release, hheap]
  unfold places
  rw [hrem]
  exact (((List.perm_cons_erase hr).append_right held).append_left _).trans List.perm_middle

/-- A turn of the loop that empties the cache. -/
theorem Owned.free_cached (h : Owned p held) : Owned (cached_buf_list_free .hybrid p) held := by
  rcases hc : p.cached_bufs with _ | ⟨id, rest⟩
  · simp only [cached_buf_list_free, hc]
    exact h
  · have hin : id ∈ p.cached_bufs := by
      rw [hc]
      exact List.mem_cons_self
    obtain ⟨b, hb⟩ := h.live id (List.mem_append_left _ hin)
    have hkey : b.id = id := key_of_lookup hb
    subst hkey
    have hno : b.id ∉ p.hdr_bufs := fun hch => (h.chunk _ hch).2.1 hin
    have hplain := h.plain _ b hb hno
    have hnorem : b.id ∉ p.remote_bufs := by
      intro hr
      exact (List.disjoint_of_nodup_append h.nodup) hin (List.mem_append_left _ hr)
    have hcold : b.type ≠ some .USERHEAP := fun ht => hnorem ((h.heap _ b hb).mp ht)
    -- between the list and the free routine the buffer is held by the loop
    let q : Pool := { p with cached_bufs := rest, num_cached_buf := p.num_cached_buf - 1 }
    have hq : Owned q (b.id :: held) := by
      have hpl : (places q (b.id :: held)).Perm (places p held) := by
        refine (places_cons q b.id held).trans ?_
        show (b.id :: (rest ++ _)).Perm (p.cached_bufs ++ _)
        rw [hc]
        exact List.Perm.refl _
      refine ⟨h.unique, h.below, hpl.nodup_iff.mpr h.nodup, ?_, ?_, ?_, h.plain,
        h.mapped, h.heap, ?_⟩
      · intro j hj
        exact h.live j (hpl.mem_iff.mp hj)
      · intro j c hjc
        rw [hpl.mem_iff]
        exact h.placed j c hjc
      · intro j hj
        obtain ⟨h1, h2, h3⟩ := h.chunk j hj
        refine ⟨h1, fun hm => h2 ?_, h3⟩
        rw [hc]
        exact List.mem_cons_of_mem _ hm
      · show p.num_cached_buf - 1 = (rest.length : Int)
        rw [h.count, hc]
        simp
    rw [cached_buf_list_free_eq hc hb]
    exact hq.free hb false

/-! ## The persistent headers -/

theorem hdr_chunks_ids (next n : Nat) : (hdr_chunks next n).map Buf.id = List.range' next n := by
  simp [hdr_chunks, Function.comp_def]

theorem mem_hdr_chunks {next n : Nat} {b : Buf} : b ∈ hdr_chunks next n ↔
    b.id ∈ List.range' next n ∧ b = ⟨b.id, PAGE_SIZE, true, some .METADATA, false⟩ := by
  unfold hdr_chunks
  rw [List.mem_map]
  constructor
  · rintro ⟨id, hid, rfl⟩
    exact ⟨hid, rfl⟩
  · rintro ⟨hid, hb⟩
    exact ⟨b.id, hid, hb.symm⟩

/-- The chunks come to a session that has none, and no owner has one of them yet. -/
theorem Owned.install {id n : Nat} (h : Owned p held) (hno : p.hdr_bufs = []) :
    Owned (install_hdrs p id n) held := by
  have hfresh : ∀ b ∈ p.bufs, b.id ∉ List.range' p.next n := by
    intro b hb hm
    have := h.below b hb
    have := (List.mem_range'_1.mp hm).1
    omega
  have hunique : Unique Buf.id (install_hdrs p id n).bufs := by
    show ((hdr_chunks p.next n ++ p.bufs).map Buf.id).Nodup
    rw [List.map_append, hdr_chunks_ids]
    refine List.nodup_append.mpr ⟨List.nodup_range', h.unique, ?_⟩
    rintro i hi j hj rfl
    obtain ⟨b, hb, rfl⟩ := List.mem_map.mp hj
    exact hfresh b hb hi
  have hold : ∀ {j c}, p.buf j = some c →
      j ∉ List.range' p.next n ∧ (install_hdrs p id n).buf j = some c := by
    intro j c hc
    obtain rfl : c.id = j := key_of_lookup hc
    have hm := mem_of_lookup hc
    exact ⟨hfresh c hm, lookup_of_mem hunique (List.mem_append_right _ hm)⟩
  have hsome : ∀ {j c}, (install_hdrs p id n).buf j = some c →
      (j ∈ List.range' p.next n ∧ c = ⟨j, PAGE_SIZE, true, some .METADATA, false⟩) ∨
      (j ∉ List.range' p.next n ∧ p.buf j = some c) := by
    intro j c hc
    obtain rfl : c.id = j := key_of_lookup hc
    rcases List.mem_append.mp (mem_of_lookup hc) with hm | hm
    · exact Or.inl (mem_hdr_chunks.mp hm)
    · exact Or.inr ⟨hfresh c hm, lookup_of_mem h.unique hm⟩
  have hfar : ∀ j ∈ places p held, j ∉ List.range' p.next n := by
    intro j hj
    obtain ⟨c, hc⟩ := h.live j hj
    exact (hold hc).1
  refine ⟨hunique, ?_, h.nodup, ?_, ?_, ?_, ?_, ?_, ?_, h.count⟩
  · intro b hb
    show b.id < p.next + n
    rcases List.mem_append.mp hb with hb | hb
    · exact (List.mem_range'_1.mp (mem_hdr_chunks.mp hb).1).2
    · have := h.below b hb
      omega
  · intro j hj
    obtain ⟨c, hc⟩ := h.live j hj
    exact ⟨c, (hold hc).2⟩
  · intro j c hc
    show j ∈ places p held ↔ (j ∈ List.range' p.next n → _)
    rcases hsome hc with ⟨hj, rfl⟩ | ⟨hj, hc⟩
    · -- a new chunk is not in use
      have hnot : j ∉ places p held := fun hm => hfar j hm hj
      simp [hnot, hj]
    · have hall := (h.placed j c hc).mpr (by simp [hno])
      simp [hall, hj]
  · intro j hj
    have hin : j ∈ List.range' p.next n := hj
    refine ⟨⟨⟨j, PAGE_SIZE, true, some .METADATA, false⟩, ?_, rfl, rfl⟩, ?_, ?_⟩
    · have hm : (⟨j, PAGE_SIZE, true, some .METADATA, false⟩ : Buf) ∈ hdr_chunks p.next n :=
        mem_hdr_chunks.mpr ⟨hin, rfl⟩
      exact lookup_of_mem hunique (List.mem_append_left _ hm)
    · exact fun hm => hfar j (List.mem_append_left _ hm) hin
    · exact fun hm => hfar j (List.mem_append_right _ (List.mem_append_left _ hm)) hin
  · intro j c hc hj
    rcases hsome hc with ⟨hin, _⟩ | ⟨_, hc⟩
    · exact absurd hin hj
    · exact h.plain j c hc (by simp [hno])
  · intro j c hc hct
    rcases hsome hc with ⟨_, rfl⟩ | ⟨_, hc⟩
    · exact ⟨rfl, Nat.dvd_refl _⟩
    · exact h.mapped j c hc hct
  · intro j c hc
    show _ ↔ j ∈ p.remote_bufs
    rcases hsome hc with ⟨hj, rfl⟩ | ⟨_, hc⟩
    · have hnot : j ∉ p.remote_bufs := by
        intro hm
        exact hfar j (List.mem_append_right _ (List.mem_append_left _ hm)) hj
      simp [hnot]
    · exact h.heap j c hc

/-- The chunks go away when no owner has one. -/
theorem Owned.kfree_hdr_bufs (h : Owned p held) (hfree : ∀ id ∈ held, id ∉ p.hdr_bufs) :
    Owned (buffer_pool.kfree_hdr_bufs p) held := by
  have hmem : ∀ {b}, b ∈ (buffer_pool.kfree_hdr_bufs p).bufs ↔ b ∈ p.bufs ∧ b.id ∉ p.hdr_bufs := by
    intro b
    simp [buffer_pool.kfree_hdr_bufs]
  have hunique : Unique Buf.id (buffer_pool.kfree_hdr_bufs p).bufs :=
    h.unique.sublist (List.filter_sublist.map _)
  have hsome : ∀ {j c}, (buffer_pool.kfree_hdr_bufs p).buf j = some c →
      j ∉ p.hdr_bufs ∧ p.buf j = some c := by
    intro j c hc
    obtain rfl : c.id = j := key_of_lookup hc
    obtain ⟨hm, hj⟩ := hmem.mp (mem_of_lookup hc)
    exact ⟨hj, lookup_of_mem h.unique hm⟩
  have hplain : ∀ j ∈ places p held, j ∉ p.hdr_bufs := by
    intro j hj hch
    obtain ⟨_, hnc, hnr⟩ := h.chunk j hch
    rcases List.mem_append.mp hj with hj | hj
    · exact hnc hj
    rcases List.mem_append.mp hj with hj | hj
    · exact hnr hj
    · exact hfree j hj hch
  refine ⟨hunique, ?_, h.nodup, ?_, ?_, by simp [buffer_pool.kfree_hdr_bufs], ?_, ?_, ?_, h.count⟩
  · intro b hb
    exact h.below b (hmem.mp hb).1
  · intro j hj
    obtain ⟨c, hc⟩ := h.live j hj
    obtain rfl : c.id = j := key_of_lookup hc
    exact ⟨c, lookup_of_mem hunique (hmem.mpr ⟨mem_of_lookup hc, hplain _ hj⟩)⟩
  · intro j c hc
    obtain ⟨hj, hc⟩ := hsome hc
    have hall := (h.placed j c hc).mpr (fun hm => absurd hm hj)
    exact Iff.intro (fun _ hm => absurd hm List.not_mem_nil) (fun _ => hall)
  · intro j c hc _
    obtain ⟨hj, hc⟩ := hsome hc
    exact h.plain j c hc hj
  · intro j c hc
    exact h.mapped j c (hsome hc).2
  · intro j c hc
    exact h.heap j c (hsome hc).2

end virtual_fastrpc.buffer_owners
