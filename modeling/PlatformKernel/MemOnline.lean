-- The memory that the boot left out (drivers/mem-online.c): mem_online_remaining_blocks
-- adds it in blocks. The two ends are counted in sections, a block may have several of
-- them, and the loop goes from section to section in steps of a block.
import PlatformKernel.DramEnd
import Mathlib.Data.Nat.ModEq

namespace mem_online

/-- The sections and blocks of the kernel. A block has `blocks` sections; all addresses are 64
bits wide. -/
structure Layout where
  SECTION_SIZE_BITS : Nat
  PAGE_SHIFT : Nat
  blocks : Nat
  page_le : PAGE_SHIFT ≤ SECTION_SIZE_BITS
  pos : 0 < SECTION_SIZE_BITS
  blocks_pos : 0 < blocks
  fits : blocks * 2 ^ SECTION_SIZE_BITS < 2 ^ 64

variable (c : Layout)

def Layout.MIN_MEMORY_BLOCK_SIZE : Nat := 2 ^ c.SECTION_SIZE_BITS
def Layout.memory_block_size_bytes : Nat := c.blocks * c.MIN_MEMORY_BLOCK_SIZE
def Layout.PFN_SECTION_SHIFT : Nat := c.SECTION_SIZE_BITS - c.PAGE_SHIFT
def Layout.PAGES_PER_SECTION : Nat := 2 ^ c.PFN_SECTION_SHIFT

def __phys_to_pfn (x : Nat) : Nat := x / 2 ^ c.PAGE_SHIFT
def __pfn_to_phys (pfn : Nat) : Nat := pfn * 2 ^ c.PAGE_SHIFT % 2 ^ 64
def pfn_to_section_nr (pfn : Nat) : Nat := pfn / 2 ^ c.PFN_SECTION_SHIFT
def section_nr_to_pfn (sec : Nat) : Nat := sec * 2 ^ c.PFN_SECTION_SHIFT % 2 ^ 64

/-- `sections_per_block`, an unsigned int. -/
def sections_per_block : Nat := c.memory_block_size_bytes / c.MIN_MEMORY_BLOCK_SIZE % 2 ^ 32

/-- The bits of an address that the loop wants to be 0. -/
def block_mask : Nat :=
  (c.PAGES_PER_SECTION * sections_per_block c % 2 ^ 64 * 2 ^ c.PAGE_SHIFT % 2 ^ 64 + 2 ^ 64 - 1) %
    2 ^ 64

/-- What is done: the ranges that were passed to add_memory, and the result. -/
structure Onlined where
  added : List (Nat × Nat)
  result : Int
  deriving DecidableEq, Repr

/-- The loop over the blocks, for at most so many turns. -/
def blocks_loop (add_memory : Nat → Bool) (end_section_nr : Nat) : Nat → Nat → Int → Option Onlined
  | 0, _, _ => none
  | turns + 1, memblock, fail =>
    if memblock ≤ end_section_nr then
      let phys_addr := __pfn_to_phys c (section_nr_to_pfn c memblock)
      let next := (memblock + sections_per_block c) % 2 ^ 64
      if phys_addr &&& block_mask c ≠ 0 then blocks_loop add_memory end_section_nr turns next 1
      else
        let range := (phys_addr, c.MIN_MEMORY_BLOCK_SIZE * sections_per_block c % 2 ^ 64)
        (blocks_loop add_memory end_section_nr turns next
          (if add_memory phys_addr then fail else 1)).map
          (fun r => { r with added := range :: r.added })
    else some ⟨[], fail⟩

def start_section_nr (memblock_end : Nat) : Nat :=
  let nr := pfn_to_section_nr c (__phys_to_pfn c memblock_end)
  if memblock_end % c.memory_block_size_bytes ≠ 0 then nr + 1 else nr

/-- An unsigned long, which wraps below 0. -/
def end_section_nr (dram_end : Nat) : Nat :=
  let nr := pfn_to_section_nr c (__phys_to_pfn c (dram_end - 1))
  if dram_end % c.memory_block_size_bytes ≠ 0 then (nr + 2 ^ 64 - 1) % 2 ^ 64 else nr

/-- The function, with the ends of the memory of the boot and of the device, and with what
add_memory answers for a block. -/
def mem_online_remaining_blocks (add_memory : Nat → Bool) (memblock_end dram_end turns : Nat) :
    Option Onlined :=
  if dram_end ≤ memblock_end then some ⟨[], -22⟩
  else if end_section_nr c dram_end < start_section_nr c memblock_end then some ⟨[], 1⟩
  else
    blocks_loop c add_memory (end_section_nr c dram_end) turns (start_section_nr c memblock_end) 0

/-! ## Rounding in sections and in blocks -/

section rounding

variable {S k : Nat}

/-- The section from which on the loop goes, for memory that ends at `m`. -/
def firstSection (S k m : Nat) : Nat := m / S + if m % (k * S) ≠ 0 then 1 else 0

/-- The section up to which the loop goes, for memory that ends at `d`. -/
def lastSection (S k d : Nat) : Nat := (d - 1) / S - if d % (k * S) ≠ 0 then 1 else 0

/-- The memory ends with a block, or in the last section of one. -/
def EndsInLast (S k m : Nat) : Prop := m % (k * S) = 0 ∨ k * S ≤ m % (k * S) + S

theorem firstSection_of_ne {m : Nat} (h : m % (k * S) ≠ 0) : firstSection S k m = m / S + 1 := by
  rw [firstSection, if_pos h]

theorem firstSection_of_eq {m : Nat} (h : m % (k * S) = 0) : firstSection S k m = m / S := by
  rw [firstSection, if_neg (not_not_intro h), Nat.add_zero]

theorem lastSection_of_ne {d : Nat} (h : d % (k * S) ≠ 0) :
    lastSection S k d = (d - 1) / S - 1 := by
  rw [lastSection, if_pos h]

theorem lastSection_of_eq {d : Nat} (h : d % (k * S) = 0) : lastSection S k d = (d - 1) / S := by
  rw [lastSection, if_neg (not_not_intro h), Nat.sub_zero]

instance : Decidable (EndsInLast S k m) := inferInstanceAs (Decidable (_ ∨ _))

theorem div_section (hS : 0 < S) (m : Nat) : m / S = m / (k * S) * k + m % (k * S) / S := by
  have hsplit : m % (k * S) + m / (k * S) * k * S = m := by
    rw [Nat.mul_assoc, Nat.mul_comm (m / (k * S)), Nat.mod_add_div]
  calc m / S = (m % (k * S) + m / (k * S) * k * S) / S := by rw [hsplit]
    _ = m % (k * S) / S + m / (k * S) * k := Nat.add_mul_div_right _ _ hS
    _ = _ := Nat.add_comm _ _

/-- The part of the last block that is in the last section. -/
theorem div_last_section {r : Nat} (hlo : k * S ≤ r + S) (hhi : r < k * S) : r / S + 1 = k := by
  rcases k with _ | t
  · omega
  · rw [Nat.add_mul, Nat.one_mul] at hlo hhi
    rw [Nat.div_eq_of_lt_le (k := t) (by omega) (by rw [Nat.add_mul, Nat.one_mul]; exact hhi)]

/-- The first section begins the first block that is missing. -/
theorem firstSection_of_endsInLast (hS : 0 < S) (hk : 0 < k) {m : Nat} (h : EndsInLast S k m) :
    ∃ first, firstSection S k m = first * k ∧ ∀ j, m ≤ j * (k * S) ↔ first ≤ j := by
  have hB : 0 < k * S := Nat.mul_pos hk hS
  have hsplit := Nat.div_add_mod m (k * S)
  have hlt := Nat.mod_lt m hB
  rw [Nat.mul_comm] at hsplit
  unfold firstSection
  by_cases h0 : m % (k * S) = 0
  · refine ⟨m / (k * S), by rw [div_section hS, h0]; simp, fun j => ?_⟩
    rw [h0, Nat.add_zero] at hsplit
    conv_lhs => rw [← hsplit]
    exact Nat.mul_le_mul_right_iff hB
  · have hlast := div_last_section (h.resolve_left h0) hlt
    refine ⟨m / (k * S) + 1, ?_, fun j => ⟨fun hle => ?_, fun hle => ?_⟩⟩
    · rw [if_pos h0, div_section hS, Nat.add_assoc, hlast, Nat.add_mul, Nat.one_mul]
    · by_contra hj
      have := Nat.mul_le_mul_right (k * S) (show j ≤ m / (k * S) by omega)
      omega
    · have := Nat.mul_le_mul_right (k * S) hle
      rw [Nat.add_mul, Nat.one_mul] at this
      omega

/-- Otherwise the first section is inside of a block. -/
theorem firstSection_not_dvd (hS : 0 < S) (hk : 0 < k) {m : Nat} (h : ¬ EndsInLast S k m) :
    ¬ k ∣ firstSection S k m := by
  obtain ⟨h0, hlast⟩ := not_or.mp h
  have hin : m % (k * S) / S + 1 < k := by
    rcases k with _ | t
    · omega
    · rw [Nat.add_mul, Nat.one_mul] at hlast
      have hlt : m % ((t + 1) * S) / S < t := by
        rw [Nat.div_lt_iff_lt_mul hS, Nat.add_mul, Nat.one_mul]
        omega
      omega
  rintro ⟨x, hx⟩
  unfold firstSection at hx
  rw [if_pos h0, div_section (k := k) hS, Nat.add_assoc, Nat.mul_comm] at hx
  have hmod : (k * (m / (k * S)) + (m % (k * S) / S + 1)) % k = 0 := by
    rw [hx, Nat.mul_mod_right]
  rw [Nat.mul_add_mod, Nat.mod_eq_of_lt hin] at hmod
  exact Nat.succ_ne_zero _ hmod

theorem succ_mul_le {a b : Nat} (h : a < b) : a * k + k ≤ b * k := by
  rw [← Nat.succ_mul]
  exact Nat.mul_le_mul_right k h

/-- Memory that ends with a block reaches to the last section of it. -/
theorem lastSection_whole (hS : 0 < S) {d : Nat} (hd : 0 < d) (h0 : d % (k * S) = 0) :
    lastSection S k d + 1 = d / (k * S) * k := by
  have hsplit : d / (k * S) * k * S = d := by
    rw [Nat.mul_assoc, Nat.div_mul_cancel (Nat.dvd_of_mod_eq_zero h0)]
  have hpos : 0 < d / (k * S) * k := by
    rcases Nat.eq_zero_or_pos (d / (k * S) * k) with hz | hz
    · rw [hz] at hsplit
      omega
    · exact hz
  rw [lastSection_of_eq h0]
  obtain ⟨t, ht⟩ := Nat.exists_eq_succ_of_ne_zero (Nat.pos_iff_ne_zero.mp hpos)
  rw [ht, Nat.succ_mul] at hsplit
  have hdiv : (d - 1) / S = t :=
    Nat.div_eq_of_lt_le (by omega) (by rw [Nat.add_mul, Nat.one_mul]; omega)
  rw [hdiv, ht]

/-- Memory that ends inside of a block reaches to the section before the one in which it ends. -/
theorem lastSection_part (hS : 0 < S) (hk : 0 < k) {d : Nat} (h0 : d % (k * S) ≠ 0) :
    lastSection S k d = d / (k * S) * k + (d % (k * S) - 1) / S - 1 := by
  have hB : 0 < k * S := Nat.mul_pos hk hS
  have hlt := Nat.mod_lt d hB
  have heq : d - 1 = k * S * (d / (k * S)) + (d % (k * S) - 1) := by
    have := Nat.div_add_mod d (k * S)
    omega
  have hmod : (d - 1) % (k * S) = d % (k * S) - 1 := by
    rw [heq, Nat.mul_add_mod, Nat.mod_eq_of_lt (by omega)]
  have hdiv : (d - 1) / (k * S) = d / (k * S) := by
    conv_lhs => rw [heq]
    rw [Nat.mul_add_div hB, Nat.div_eq_of_lt (show d % (k * S) - 1 < k * S by omega), Nat.add_zero]
  rw [lastSection_of_ne h0, div_section (k := k) hS, hmod, hdiv]

/-- The last section reaches the whole blocks, and the one after them when the memory ends behind
its first section. -/
theorem le_lastSection_iff (hS : 0 < S) (hk : 0 < k) {d : Nat} (hd : 0 < d)
    (hlast : d % (k * S) = 0 ∨ S < d) (j : Nat) :
    j * k ≤ lastSection S k d ↔ j < d / (k * S) ∨ (j = d / (k * S) ∧ S < d % (k * S)) := by
  by_cases h0 : d % (k * S) = 0
  · have hwhole := lastSection_whole hS hd h0
    rw [h0]
    constructor
    · intro hj
      left
      by_contra hge
      have := Nat.mul_le_mul_right k (Nat.le_of_not_lt hge)
      omega
    · rintro (hj | ⟨_, habs⟩)
      · have := succ_mul_le (k := k) hj
        omega
      · omega
  · have hlt := Nat.mod_lt d (Nat.mul_pos hk hS)
    have hsplit := Nat.div_add_mod d (k * S)
    have hin : (d % (k * S) - 1) / S < k := by
      rw [Nat.div_lt_iff_lt_mul hS]
      omega
    have hpart : 1 ≤ (d % (k * S) - 1) / S ↔ S < d % (k * S) := by
      rw [Nat.one_le_div_iff hS]
      omega
    rw [lastSection_part hS hk h0]
    generalize (d % (k * S) - 1) / S = t at hin hpart ⊢
    constructor
    · intro hj
      rcases Nat.lt_trichotomy j (d / (k * S)) with h | h | h
      · exact Or.inl h
      · refine Or.inr ⟨h, hpart.mp ?_⟩
        by_contra hz
        -- the memory has a block before this one, so that the difference is not cut off
        have hpos : 0 < d / (k * S) := by
          rcases Nat.eq_zero_or_pos (d / (k * S)) with hz' | hz'
          · rw [hz', Nat.mul_zero] at hsplit
            have := hpart.mpr (by omega)
            omega
          · exact hz'
        have := Nat.mul_pos hpos hk
        rw [h] at hj
        omega
      · have := succ_mul_le (k := k) h
        omega
    · rintro (hj | ⟨rfl, hr⟩)
      · have := succ_mul_le (k := k) hj
        omega
      · have := hpart.mpr hr
        omega

end rounding

/-! ## The machine arithmetic -/

section machine

variable {c : Layout}

/-- `sections_per_block` is the number of the sections of a block, when it fits 32 bits. -/
theorem sections_per_block_eq : sections_per_block c = c.blocks % 2 ^ 32 := by
  have hS : 0 < c.MIN_MEMORY_BLOCK_SIZE := Nat.pow_pos (by decide)
  rw [sections_per_block, Layout.memory_block_size_bytes, Nat.mul_div_cancel _ hS]

theorem section_size_split :
    2 ^ c.PAGE_SHIFT * 2 ^ c.PFN_SECTION_SHIFT = c.MIN_MEMORY_BLOCK_SIZE := by
  have hle := c.page_le
  rw [← Nat.pow_add, Layout.MIN_MEMORY_BLOCK_SIZE]
  unfold Layout.PFN_SECTION_SHIFT
  congr 1
  omega

theorem section_nr_eq (x : Nat) :
    pfn_to_section_nr c (__phys_to_pfn c x) = x / c.MIN_MEMORY_BLOCK_SIZE := by
  rw [pfn_to_section_nr, __phys_to_pfn, Nat.div_div_eq_div_mul, section_size_split]

/-- A shift in two parts, while nothing is lost. -/
theorem shift_in_parts {x : Nat} (h : x * c.MIN_MEMORY_BLOCK_SIZE < 2 ^ 64) :
    x * 2 ^ c.PFN_SECTION_SHIFT % 2 ^ 64 * 2 ^ c.PAGE_SHIFT % 2 ^ 64 =
      x * c.MIN_MEMORY_BLOCK_SIZE := by
  have hsplit : x * 2 ^ c.PFN_SECTION_SHIFT * 2 ^ c.PAGE_SHIFT = x * c.MIN_MEMORY_BLOCK_SIZE := by
    rw [Nat.mul_assoc, Nat.mul_comm (2 ^ c.PFN_SECTION_SHIFT), section_size_split]
  have hpage : 1 ≤ 2 ^ c.PAGE_SHIFT := Nat.pow_pos (by decide)
  have hle := Nat.mul_le_mul_left (x * 2 ^ c.PFN_SECTION_SHIFT) hpage
  rw [Nat.mod_eq_of_lt (show x * 2 ^ c.PFN_SECTION_SHIFT < 2 ^ 64 by omega), hsplit,
    Nat.mod_eq_of_lt h]

theorem step_fits : c.blocks % 2 ^ 32 * c.MIN_MEMORY_BLOCK_SIZE < 2 ^ 64 :=
  Nat.lt_of_le_of_lt (Nat.mul_le_mul_right _ (Nat.mod_le _ _)) c.fits

theorem block_mask_eq (h : 0 < c.blocks % 2 ^ 32) :
    block_mask c = c.blocks % 2 ^ 32 * c.MIN_MEMORY_BLOCK_SIZE - 1 := by
  have hS : 0 < c.MIN_MEMORY_BLOCK_SIZE := Nat.pow_pos (by decide)
  have hpos := Nat.mul_pos h hS
  have hfits := step_fits (c := c)
  unfold block_mask Layout.PAGES_PER_SECTION
  rw [sections_per_block_eq, Nat.mul_comm (2 ^ c.PFN_SECTION_SHIFT), shift_in_parts hfits]
  omega

/-- The section passes the test of the loop: its address has no bit of the mask. -/
def Passes (c : Layout) (memblock : Nat) : Prop :=
  memblock * c.MIN_MEMORY_BLOCK_SIZE &&& (c.blocks % 2 ^ 32 * c.MIN_MEMORY_BLOCK_SIZE - 1) = 0

instance (memblock : Nat) : Decidable (Passes c memblock) := inferInstanceAs (Decidable (_ = _))

variable {add_memory : Nat → Bool} {last : Nat}

/-- Without a step, or up to the largest section number, the loop never ends. -/
theorem blocks_loop_none (hnext : ∀ m ≤ last, (m + sections_per_block c) % 2 ^ 64 ≤ last)
    (turns : Nat) {memblock : Nat} (hle : memblock ≤ last) (fail : Int) :
    blocks_loop c add_memory last turns memblock fail = none := by
  induction turns generalizing memblock fail with
  | zero => rfl
  | succ turns ih =>
    have hle' := hnext memblock hle
    rw [blocks_loop, if_pos hle]
    dsimp only
    split
    · exact ih hle' 1
    · rw [ih hle']
      rfl

/-- What the loop visits from a section on: the section, and what it visits from the next one on. -/
theorem visits_iff {K memblock : Nat} (hle : memblock ≤ last) (P : Nat → Prop) :
    (∃ i, memblock + i * K ≤ last ∧ P (memblock + i * K)) ↔
      P memblock ∨ ∃ i, memblock + K + i * K ≤ last ∧ P (memblock + K + i * K) := by
  have hshift : ∀ i, memblock + (i + 1) * K = memblock + K + i * K := by
    intro i
    rw [Nat.add_mul, Nat.one_mul]
    omega
  constructor
  · rintro ⟨i, hi, hp⟩
    cases i with
    | zero =>
      rw [Nat.zero_mul, Nat.add_zero] at hp
      exact Or.inl hp
    | succ i =>
      rw [hshift] at hi hp
      exact Or.inr ⟨i, hi, hp⟩
  · rintro (hp | ⟨i, hi, hp⟩)
    · exact ⟨0, by omega, by rwa [Nat.zero_mul]⟩
    · rw [← hshift] at hi hp
      exact ⟨i + 1, hi, hp⟩

theorem not_visits {K memblock : Nat} (hgt : last < memblock) (P : Nat → Prop) :
    ¬ ∃ i, memblock + i * K ≤ last ∧ P (memblock + i * K) := by
  rintro ⟨i, hi, _⟩
  omega

theorem blocks_loop_behind {memblock : Nat} (hgt : last < memblock) (turns : Nat) (fail : Int) :
    blocks_loop c add_memory last (turns + 1) memblock fail = some ⟨[], fail⟩ := by
  rw [blocks_loop, if_neg (Nat.not_le.mpr hgt)]

/-- One turn of the loop, while the section numbers do not wrap. -/
theorem blocks_loop_turn (hstep : 0 < c.blocks % 2 ^ 32)
    (hlast : last * c.MIN_MEMORY_BLOCK_SIZE < 2 ^ 64) {memblock : Nat} (hle : memblock ≤ last)
    (turns : Nat) (fail : Int) :
    blocks_loop c add_memory last (turns + 1) memblock fail =
      if Passes c memblock then
        (blocks_loop c add_memory last turns (memblock + c.blocks % 2 ^ 32)
          (if add_memory (memblock * c.MIN_MEMORY_BLOCK_SIZE) then fail else 1)).map
          (fun r => { r with added := (memblock * c.MIN_MEMORY_BLOCK_SIZE,
            c.blocks % 2 ^ 32 * c.MIN_MEMORY_BLOCK_SIZE) :: r.added })
      else blocks_loop c add_memory last turns (memblock + c.blocks % 2 ^ 32) 1 := by
  have hphys : __pfn_to_phys c (section_nr_to_pfn c memblock) =
    memblock * c.MIN_MEMORY_BLOCK_SIZE :=
    shift_in_parts (Nat.lt_of_le_of_lt (Nat.mul_le_mul_right _ hle) hlast)
  have hnext : (memblock + sections_per_block c) % 2 ^ 64 = memblock + c.blocks % 2 ^ 32 := by
    have hS : 2 ≤ c.MIN_MEMORY_BLOCK_SIZE := Nat.le_self_pow (Nat.pos_iff_ne_zero.mp c.pos) 2
    have hlast63 := Nat.mul_le_mul_left last hS
    rw [sections_per_block_eq]
    omega
  have hsize : c.MIN_MEMORY_BLOCK_SIZE * sections_per_block c % 2 ^ 64 =
      c.blocks % 2 ^ 32 * c.MIN_MEMORY_BLOCK_SIZE := by
    rw [sections_per_block_eq, Nat.mul_comm, Nat.mod_eq_of_lt step_fits]
  have hpass : memblock * c.MIN_MEMORY_BLOCK_SIZE &&& block_mask c ≠ 0 ↔ ¬ Passes c memblock := by
    rw [block_mask_eq hstep]
    rfl
  rw [blocks_loop]
  simp only [if_pos hle, hphys, hnext, hsize, hpass, ite_not]

/-- The loop adds the sections that it visits and that pass the test. -/
theorem blocks_loop_added (hstep : 0 < c.blocks % 2 ^ 32)
    (hlast : last * c.MIN_MEMORY_BLOCK_SIZE < 2 ^ 64) (turns memblock : Nat)
    (hturns : last < memblock + turns) (fail : Int) :
    ∃ r, blocks_loop c add_memory last (turns + 1) memblock fail = some r ∧
      ∀ a z, (a, z) ∈ r.added ↔ z = c.blocks % 2 ^ 32 * c.MIN_MEMORY_BLOCK_SIZE ∧
        ∃ i, memblock + i * (c.blocks % 2 ^ 32) ≤ last ∧
          Passes c (memblock + i * (c.blocks % 2 ^ 32)) ∧
          a = (memblock + i * (c.blocks % 2 ^ 32)) * c.MIN_MEMORY_BLOCK_SIZE := by
  induction turns generalizing memblock fail with
  | zero =>
    refine ⟨_, blocks_loop_behind hturns 0 fail, fun a z => iff_of_false List.not_mem_nil ?_⟩
    rintro ⟨_, hvisit⟩
    exact not_visits hturns (fun x => Passes c x ∧ a = x * c.MIN_MEMORY_BLOCK_SIZE) hvisit
  | succ turns ih =>
    rcases Nat.lt_or_ge last memblock with hgt | hle
    · refine ⟨_, blocks_loop_behind hgt _ fail, fun a z => iff_of_false List.not_mem_nil ?_⟩
      rintro ⟨_, hvisit⟩
      exact not_visits hgt (fun x => Passes c x ∧ a = x * c.MIN_MEMORY_BLOCK_SIZE) hvisit
    rw [blocks_loop_turn hstep hlast hle]
    have hturns' : last < memblock + c.blocks % 2 ^ 32 + turns := by omega
    by_cases hp : Passes c memblock
    · obtain ⟨r, hr, hadded⟩ := ih _ hturns'
        (if add_memory (memblock * c.MIN_MEMORY_BLOCK_SIZE) then fail else 1)
      refine ⟨{ r with added := (memblock * c.MIN_MEMORY_BLOCK_SIZE,
        c.blocks % 2 ^ 32 * c.MIN_MEMORY_BLOCK_SIZE) :: r.added },
        by rw [if_pos hp, hr]; rfl, fun a z => ?_⟩
      rw [List.mem_cons, hadded, Prod.mk.injEq, visits_iff hle
        (fun x => Passes c x ∧ a = x * c.MIN_MEMORY_BLOCK_SIZE)]
      constructor
      · rintro (⟨ha, hz⟩ | ⟨hz, hrest⟩)
        · exact ⟨hz, Or.inl ⟨hp, ha⟩⟩
        · exact ⟨hz, Or.inr hrest⟩
      · rintro ⟨hz, ⟨_, ha⟩ | hrest⟩
        · exact Or.inl ⟨ha, hz⟩
        · exact Or.inr ⟨hz, hrest⟩
    · obtain ⟨r, hr, hadded⟩ := ih _ hturns' 1
      refine ⟨r, by rw [if_neg hp, hr], fun a z => ?_⟩
      rw [hadded, visits_iff hle (fun x => Passes c x ∧ a = x * c.MIN_MEMORY_BLOCK_SIZE)]
      constructor
      · rintro ⟨hz, hrest⟩
        exact ⟨hz, Or.inr hrest⟩
      · rintro ⟨hz, ⟨hp', _⟩ | hrest⟩
        · exact absurd hp' hp
        · exact ⟨hz, hrest⟩

end machine

/-! ## What is added -/

section online

variable {c : Layout} {add_memory : Nat → Bool} {m d : Nat}

/-- The ranges that were added are the whole blocks between the two ends, and no others. -/
def AddsMissing (c : Layout) (m d : Nat) (r : Onlined) : Prop :=
  ∀ a z, (a, z) ∈ r.added ↔ z = c.memory_block_size_bytes ∧ c.memory_block_size_bytes ∣ a ∧ m ≤ a ∧
    a + c.memory_block_size_bytes ≤ d

/-- The function returns, and it has added the missing blocks. -/
def Onlines (c : Layout) (add_memory : Nat → Bool) (m d : Nat) : Prop :=
  ∃ turns r, mem_online_remaining_blocks c add_memory m d turns = some r ∧ AddsMissing c m d r

theorem start_section_nr_eq :
    start_section_nr c m = firstSection c.MIN_MEMORY_BLOCK_SIZE c.blocks m := by
  unfold start_section_nr
  rw [section_nr_eq]
  by_cases h0 : m % c.memory_block_size_bytes = 0
  · rw [firstSection_of_eq h0]
    exact if_neg (not_not_intro h0)
  · rw [firstSection_of_ne h0]
    exact if_pos h0

theorem end_section_nr_eq (hd : 0 < d) (hfits : d < 2 ^ 64)
    (hreach : d % c.memory_block_size_bytes = 0 ∨ c.MIN_MEMORY_BLOCK_SIZE < d) :
    end_section_nr c d = lastSection c.MIN_MEMORY_BLOCK_SIZE c.blocks d := by
  have hle : (d - 1) / c.MIN_MEMORY_BLOCK_SIZE ≤ d - 1 := Nat.div_le_self _ _
  unfold end_section_nr
  rw [section_nr_eq]
  by_cases h0 : d % c.memory_block_size_bytes = 0
  · rw [lastSection_of_eq h0]
    exact if_neg (not_not_intro h0)
  · have hpos : 0 < (d - 1) / c.MIN_MEMORY_BLOCK_SIZE := by
      have := hreach.resolve_left h0
      exact Nat.div_pos (by omega) (Nat.pow_pos (by decide))
    rw [lastSection_of_ne h0]
    dsimp only
    rw [if_pos h0]
    generalize (d - 1) / c.MIN_MEMORY_BLOCK_SIZE = n at hle hpos ⊢
    omega

/-- With less memory than a section, the number of the last section is the largest there is. -/
theorem end_section_nr_wraps (hd : 0 < d) (h0 : d % c.memory_block_size_bytes ≠ 0)
    (hsmall : d ≤ c.MIN_MEMORY_BLOCK_SIZE) : end_section_nr c d = 2 ^ 64 - 1 := by
  have hzero : (d - 1) / c.MIN_MEMORY_BLOCK_SIZE = 0 := Nat.div_eq_of_lt (by omega)
  unfold end_section_nr
  rw [section_nr_eq, hzero]
  exact if_pos h0

theorem blocks_loop_unique {last turns turns' memblock : Nat} {fail : Int} {r r' : Onlined}
    (h : blocks_loop c add_memory last turns memblock fail = some r)
    (h' : blocks_loop c add_memory last turns' memblock fail = some r') : r = r' := by
  induction turns generalizing turns' memblock fail r r' with
  | zero => cases h
  | succ turns ih =>
    cases turns' with
    | zero => cases h'
    | succ turns' =>
      rw [blocks_loop] at h h'
      by_cases hle : memblock ≤ last
      · simp only [if_pos hle] at h h'
        by_cases hp : __pfn_to_phys c (section_nr_to_pfn c memblock) &&& block_mask c ≠ 0
        · rw [if_pos hp] at h h'
          exact ih h h'
        · rw [if_neg hp] at h h'
          obtain ⟨x, hx, rfl⟩ := Option.map_eq_some_iff.mp h
          obtain ⟨y, hy, rfl⟩ := Option.map_eq_some_iff.mp h'
          rw [ih hx hy]
      · rw [if_neg hle] at h h'
        cases h
        cases h'
        rfl

theorem remaining_blocks_unique {turns turns' : Nat} {r r' : Onlined}
    (h : mem_online_remaining_blocks c add_memory m d turns = some r)
    (h' : mem_online_remaining_blocks c add_memory m d turns' = some r') : r = r' := by
  unfold mem_online_remaining_blocks at h h'
  by_cases hle : d ≤ m
  · rw [if_pos hle] at h h'
    exact Option.some.inj (h.symm.trans h')
  rw [if_neg hle] at h h'
  by_cases hlt : end_section_nr c d < start_section_nr c m
  · rw [if_pos hlt] at h h'
    exact Option.some.inj (h.symm.trans h')
  · rw [if_neg hlt] at h h'
    exact blocks_loop_unique h h'

theorem firstSection_le (S k m : Nat) : firstSection S k m ≤ m / S + 1 := by
  unfold firstSection
  split
  · exact Nat.le_refl _
  · omega

/-- A run that returns has found the number of the last section, and has steps to take. -/
theorem reaches_of_returns (hmd : m < d) (hfits : d < 2 ^ 64) {turns : Nat} {r : Onlined}
    (h : mem_online_remaining_blocks c add_memory m d turns = some r) :
    (d % c.memory_block_size_bytes = 0 ∨ c.MIN_MEMORY_BLOCK_SIZE < d) ∧
    (firstSection c.MIN_MEMORY_BLOCK_SIZE c.blocks m ≤
      lastSection c.MIN_MEMORY_BLOCK_SIZE c.blocks d →
      0 < c.blocks % 2 ^ 32) := by
  have hS : 2 ≤ c.MIN_MEMORY_BLOCK_SIZE := Nat.le_self_pow (Nat.pos_iff_ne_zero.mp c.pos) 2
  unfold mem_online_remaining_blocks at h
  rw [if_neg (by omega)] at h
  have hreach : d % c.memory_block_size_bytes = 0 ∨ c.MIN_MEMORY_BLOCK_SIZE < d := by
    by_contra hno
    obtain ⟨h0, hsmall⟩ := not_or.mp hno
    have hstart := firstSection_le c.MIN_MEMORY_BLOCK_SIZE c.blocks m
    rw [end_section_nr_wraps (by omega) h0 (by omega), start_section_nr_eq,
      Nat.div_eq_of_lt (show m < c.MIN_MEMORY_BLOCK_SIZE by omega)] at *
    rw [if_neg (by omega), blocks_loop_none (fun x _ => by omega) _ (by omega)] at h
    cases h
  refine ⟨hreach, fun hle => Nat.pos_of_ne_zero fun hz => ?_⟩
  rw [end_section_nr_eq (by omega) hfits hreach, start_section_nr_eq, if_neg (by omega),
    blocks_loop_none (fun x hx => ?_) _ hle] at h
  · cases h
  · rw [sections_per_block_eq, hz, Nat.add_zero]
    exact Nat.le_trans (Nat.mod_le _ _) hx

/-- What the function adds when it returns. -/
theorem returns_added (hmd : m < d) (hfits : d < 2 ^ 64)
    (hreach : d % c.memory_block_size_bytes = 0 ∨ c.MIN_MEMORY_BLOCK_SIZE < d)
    (hstep : firstSection c.MIN_MEMORY_BLOCK_SIZE c.blocks m ≤
      lastSection c.MIN_MEMORY_BLOCK_SIZE c.blocks d → 0 < c.blocks % 2 ^ 32) :
    ∃ turns r, mem_online_remaining_blocks c add_memory m d turns = some r ∧
      ∀ a z, (a, z) ∈ r.added ↔ z = c.blocks % 2 ^ 32 * c.MIN_MEMORY_BLOCK_SIZE ∧
        ∃ i, firstSection c.MIN_MEMORY_BLOCK_SIZE c.blocks m + i * (c.blocks % 2 ^ 32) ≤
            lastSection c.MIN_MEMORY_BLOCK_SIZE c.blocks d ∧
          Passes c (firstSection c.MIN_MEMORY_BLOCK_SIZE c.blocks m + i * (c.blocks % 2 ^ 32)) ∧
          a = (firstSection c.MIN_MEMORY_BLOCK_SIZE c.blocks m + i * (c.blocks % 2 ^ 32)) *
            c.MIN_MEMORY_BLOCK_SIZE := by
  have hS : 0 < c.MIN_MEMORY_BLOCK_SIZE := Nat.pow_pos (by decide)
  unfold mem_online_remaining_blocks
  rw [end_section_nr_eq (by omega) hfits hreach, start_section_nr_eq]
  by_cases hle : firstSection c.MIN_MEMORY_BLOCK_SIZE c.blocks m ≤
      lastSection c.MIN_MEMORY_BLOCK_SIZE c.blocks d
  · have hlast : lastSection c.MIN_MEMORY_BLOCK_SIZE c.blocks d * c.MIN_MEMORY_BLOCK_SIZE <
      2 ^ 64 := by
      have hsub : lastSection c.MIN_MEMORY_BLOCK_SIZE c.blocks d ≤
        (d - 1) / c.MIN_MEMORY_BLOCK_SIZE :=
        Nat.sub_le _ _
      have hmul := Nat.mul_le_mul_right c.MIN_MEMORY_BLOCK_SIZE hsub
      have hdiv := Nat.div_mul_le_self (d - 1) c.MIN_MEMORY_BLOCK_SIZE
      omega
    obtain ⟨r, hr, hadded⟩ := @blocks_loop_added c add_memory _ (hstep hle) hlast
      (lastSection c.MIN_MEMORY_BLOCK_SIZE c.blocks d + 1)
      (firstSection c.MIN_MEMORY_BLOCK_SIZE c.blocks m) (by omega) 0
    exact ⟨_, r, by rw [if_neg (by omega), if_neg (by omega), hr], hadded⟩
  · refine ⟨0, ⟨[], 1⟩, by rw [if_neg (by omega), if_pos (by omega)], fun a z => ?_⟩
    constructor
    · intro h
      cases h
    · rintro ⟨_, i, hi, _⟩
      omega

/-! ## When the missing blocks are added -/

/-- The loop begins with the first missing block, in steps of a block. -/
def InStep (c : Layout) (m : Nat) : Prop :=
  EndsInLast c.MIN_MEMORY_BLOCK_SIZE c.blocks m ∧ c.blocks < 2 ^ 32

/-- When the function can add the missing blocks. -/
structure CanOnline (c : Layout) (m d : Nat) : Prop where
  /-- There is more than a section of memory, or it ends with a block. -/
  reaches : d % c.memory_block_size_bytes = 0 ∨ c.MIN_MEMORY_BLOCK_SIZE < d
  /-- When a whole block is missing, the loop is in step, and the address of the block passes. -/
  missing : ∀ j, m ≤ j * c.memory_block_size_bytes → (j + 1) * c.memory_block_size_bytes ≤ d →
    InStep c m ∧ Passes c (j * c.blocks)
  /-- The memory ends in the first section of a block, or this block does not pass. -/
  rest : InStep c m → d % c.memory_block_size_bytes ≤ c.MIN_MEMORY_BLOCK_SIZE ∨
    d / c.memory_block_size_bytes * c.memory_block_size_bytes < m ∨
    ¬ Passes c (d / c.memory_block_size_bytes * c.blocks)
  /-- When the loop is not in step, no section that it visits passes. -/
  stray : ¬ InStep c m → ∀ i, firstSection c.MIN_MEMORY_BLOCK_SIZE c.blocks m +
      i * (c.blocks % 2 ^ 32) ≤ lastSection c.MIN_MEMORY_BLOCK_SIZE c.blocks d →
    0 < c.blocks % 2 ^ 32 ∧
      ¬ Passes c (firstSection c.MIN_MEMORY_BLOCK_SIZE c.blocks m + i * (c.blocks % 2 ^ 32))

theorem block_size_pos : 0 < c.memory_block_size_bytes :=
  Nat.mul_pos c.blocks_pos (Nat.pow_pos (by decide))

theorem block_le_iff {j : Nat} :
    (j + 1) * c.memory_block_size_bytes ≤ d ↔ j < d / c.memory_block_size_bytes :=
  (Nat.le_div_iff_mul_le block_size_pos).symm

theorem InStep.step_eq (h : InStep c m) : c.blocks % 2 ^ 32 = c.blocks := Nat.mod_eq_of_lt h.2

/-- A range of the right size at a block means that the loop is in step. -/
theorem inStep_of_block {i j : Nat} (hstep : c.blocks % 2 ^ 32 * c.MIN_MEMORY_BLOCK_SIZE =
      c.memory_block_size_bytes)
    (hsec : firstSection c.MIN_MEMORY_BLOCK_SIZE c.blocks m + i * (c.blocks % 2 ^ 32) =
      j * c.blocks) :
    InStep c m := by
  have hS : 0 < c.MIN_MEMORY_BLOCK_SIZE := Nat.pow_pos (by decide)
  have hblocks : c.blocks % 2 ^ 32 = c.blocks := Nat.eq_of_mul_eq_mul_right hS hstep
  have hlt : c.blocks % 2 ^ 32 < 2 ^ 32 := Nat.mod_lt _ (by decide)
  refine ⟨?_, by omega⟩
  by_contra hno
  refine firstSection_not_dvd hS c.blocks_pos hno ?_
  rw [hblocks] at hsec
  exact (Nat.dvd_add_left (Nat.dvd_mul_left c.blocks i)).mp (hsec ▸ Nat.dvd_mul_left c.blocks j)

theorem block_mul (j : Nat) :
    j * c.memory_block_size_bytes = j * c.blocks * c.MIN_MEMORY_BLOCK_SIZE :=
  (Nat.mul_assoc j _ _).symm

/-- In step the loop visits the blocks from the first missing one on. -/
theorem InStep.visits (h : InStep c m) :
    ∃ first, (∀ j, m ≤ j * c.memory_block_size_bytes ↔ first ≤ j) ∧
      ∀ i, firstSection c.MIN_MEMORY_BLOCK_SIZE c.blocks m + i * (c.blocks % 2 ^ 32) =
        (first + i) * c.blocks := by
  obtain ⟨first, hfirst, hmissing⟩ :=
    firstSection_of_endsInLast (Nat.pow_pos (by decide)) c.blocks_pos h.1
  refine ⟨first, hmissing, fun i => ?_⟩
  rw [h.step_eq, Nat.add_mul]
  exact congrArg (· + i * c.blocks) hfirst

theorem CanOnline.of_onlines (hmd : m < d) (hfits : d < 2 ^ 64) (h : Onlines c add_memory m d) :
    CanOnline c m d := by
  have hS : 0 < c.MIN_MEMORY_BLOCK_SIZE := Nat.pow_pos (by decide)
  obtain ⟨turns, r, hr, hadds⟩ := h
  obtain ⟨hreach, hstep⟩ := reaches_of_returns hmd hfits hr
  obtain ⟨turns', r', hr', hadded⟩ := @returns_added c add_memory m d hmd hfits hreach hstep
  obtain rfl := remaining_blocks_unique hr hr'
  refine ⟨hreach, fun j hlo hhi => ?_, fun hin => ?_, fun hno i hi => ?_⟩
  · -- a missing block is added, so the loop visits it
    rw [Nat.add_mul, Nat.one_mul] at hhi
    obtain ⟨hz, i, _, hpass, ha⟩ :=
      (hadded _ _).mp ((hadds _ _).mpr ⟨rfl, Nat.dvd_mul_left _ j, hlo, hhi⟩)
    rw [block_mul] at ha
    have hsec := Nat.eq_of_mul_eq_mul_right hS ha
    rw [← hsec] at hpass
    exact ⟨inStep_of_block hz.symm hsec.symm, hpass⟩
  · -- the block behind the last whole one is not added, since it has memory that is not there
    by_contra hno
    simp only [not_or, not_not, Nat.not_le, Nat.not_lt] at hno
    obtain ⟨hpart, hlo, hpass⟩ := hno
    obtain ⟨first, hmissing, hvisit⟩ := hin.visits
    obtain ⟨i, hi⟩ := Nat.exists_eq_add_of_le ((hmissing _).mp hlo)
    have hsec := hvisit i
    rw [← hi] at hsec
    have hmem := (hadded (d / c.memory_block_size_bytes * c.memory_block_size_bytes) _).mpr
      ⟨rfl, i, by
        rw [hsec]
        exact ⟨(le_lastSection_iff hS c.blocks_pos (by omega) hreach _).mpr (Or.inr ⟨rfl, hpart⟩),
          hpass, block_mul _⟩⟩
    have hend := ((hadds _ _).mp hmem).2.2.2
    have hsplit := Nat.div_add_mod' d c.memory_block_size_bytes
    have hmodlt := Nat.mod_lt d (block_size_pos (c := c))
    omega
  · -- what the loop adds out of step is no block
    refine ⟨hstep (by omega), fun hpass => hno ?_⟩
    obtain ⟨hz, ⟨j, hj⟩, _, _⟩ := (hadds _ _).mp ((hadded _ _).mpr ⟨rfl, i, hi, hpass, rfl⟩)
    rw [Nat.mul_comm c.memory_block_size_bytes, block_mul] at hj
    exact inStep_of_block hz (Nat.eq_of_mul_eq_mul_right hS hj)

/-- A block that the loop visits is one that is missing. -/
theorem CanOnline.whole (h : CanOnline c m d) (hd : 0 < d) (hin : InStep c m) {j : Nat}
    (hlo : m ≤ j * c.memory_block_size_bytes)
    (hvisit : j * c.blocks ≤ lastSection c.MIN_MEMORY_BLOCK_SIZE c.blocks d)
    (hpass : Passes c (j * c.blocks)) : (j + 1) * c.memory_block_size_bytes ≤ d := by
  rw [block_le_iff]
  rcases (le_lastSection_iff (Nat.pow_pos (by decide)) c.blocks_pos hd h.reaches _).mp hvisit with
    hlt | ⟨rfl, hpart⟩
  · exact hlt
  · rcases h.rest hin with hle | hlt | hno
    · exact absurd hpart (Nat.not_lt.mpr hle)
    · exact absurd hlo (Nat.not_le.mpr hlt)
    · exact absurd hpass hno

theorem CanOnline.onlines (hmd : m < d) (hfits : d < 2 ^ 64) (h : CanOnline c m d) :
    Onlines c add_memory m d := by
  have hstep : firstSection c.MIN_MEMORY_BLOCK_SIZE c.blocks m ≤
      lastSection c.MIN_MEMORY_BLOCK_SIZE c.blocks d → 0 < c.blocks % 2 ^ 32 := by
    intro hle
    by_cases hin : InStep c m
    · rw [hin.step_eq]
      exact c.blocks_pos
    · exact (h.stray hin 0 (by omega)).1
  obtain ⟨turns, r, hr, hadded⟩ := @returns_added c add_memory m d hmd hfits h.reaches hstep
  refine ⟨turns, r, hr, fun a z => ?_⟩
  rw [hadded]
  constructor
  · rintro ⟨rfl, i, hi, hpass, rfl⟩
    have hin : InStep c m := by
      by_contra hno
      exact (h.stray hno i hi).2 hpass
    obtain ⟨first, hmissing, hvisit⟩ := hin.visits
    rw [hvisit] at hi hpass ⊢
    rw [hin.step_eq, ← block_mul]
    have hlo := (hmissing (first + i)).mpr (Nat.le_add_right _ _)
    have hend := h.whole (by omega) hin hlo hi hpass
    rw [Nat.add_mul, Nat.one_mul] at hend
    exact ⟨rfl, Nat.dvd_mul_left _ _, hlo, hend⟩
  · rintro ⟨rfl, ⟨j, rfl⟩, hlo, hhi⟩
    rw [Nat.mul_comm c.memory_block_size_bytes j] at hlo hhi ⊢
    have hblock : (j + 1) * c.memory_block_size_bytes ≤ d := by
      rw [Nat.add_mul, Nat.one_mul]
      exact hhi
    obtain ⟨hin, hpass⟩ := h.missing j hlo hblock
    obtain ⟨first, hmissing, hvisit⟩ := hin.visits
    obtain ⟨i, rfl⟩ := Nat.exists_eq_add_of_le ((hmissing j).mp hlo)
    refine ⟨by rw [hin.step_eq]; rfl, i, ?_⟩
    rw [hvisit]
    exact ⟨(le_lastSection_iff (Nat.pow_pos (by decide)) c.blocks_pos (by omega) h.reaches _).mpr
      (Or.inl (block_le_iff.mp hblock)), hpass, block_mul _⟩

theorem onlines_iff (hmd : m < d) (hfits : d < 2 ^ 64) :
    Onlines c add_memory m d ↔ CanOnline c m d :=
  ⟨CanOnline.of_onlines hmd hfits, CanOnline.onlines hmd hfits⟩

/-- When a block has a power of two of sections, the test asks for the start of a block. -/
theorem passes_iff_dvd {e : Nat} (he : e < 32) (hblocks : c.blocks = 2 ^ e) (x : Nat) :
    Passes c x ↔ c.blocks ∣ x := by
  have hlt : (2 : Nat) ^ e < 2 ^ 32 := Nat.pow_lt_pow_right (by decide) he
  have hS : 0 < c.MIN_MEMORY_BLOCK_SIZE := Nat.pow_pos (by decide)
  unfold Passes
  rw [hblocks, Nat.mod_eq_of_lt hlt, Layout.MIN_MEMORY_BLOCK_SIZE, ← Nat.pow_add,
    Nat.and_two_pow_sub_one_eq_mod, Nat.pow_add]
  constructor
  · intro h
    exact Nat.dvd_of_mul_dvd_mul_right hS (Nat.dvd_of_mod_eq_zero h)
  · intro h
    exact Nat.mod_eq_zero_of_dvd (Nat.mul_dvd_mul_right h _)

/-- The condition for the blocks of the kernel, whose sizes are powers of two. -/
theorem canOnline_iff {e : Nat} (he : e < 32) (hblocks : c.blocks = 2 ^ e) :
    CanOnline c m d ↔
      (d % c.memory_block_size_bytes = 0 ∨ c.MIN_MEMORY_BLOCK_SIZE < d) ∧
      (EndsInLast c.MIN_MEMORY_BLOCK_SIZE c.blocks m ∨
        ∀ j, m ≤ j * c.memory_block_size_bytes → d < (j + 1) * c.memory_block_size_bytes) ∧
      (EndsInLast c.MIN_MEMORY_BLOCK_SIZE c.blocks m →
        d % c.memory_block_size_bytes ≤ c.MIN_MEMORY_BLOCK_SIZE ∨
          d / c.memory_block_size_bytes * c.memory_block_size_bytes < m) := by
  have hlt : c.blocks < 2 ^ 32 := hblocks ▸ Nat.pow_lt_pow_right (by decide) he
  have hstep : c.blocks % 2 ^ 32 = c.blocks := Nat.mod_eq_of_lt hlt
  have hS : 0 < c.MIN_MEMORY_BLOCK_SIZE := Nat.pow_pos (by decide)
  constructor
  · rintro ⟨hreach, hmissing, hrest, _⟩
    refine ⟨hreach, ?_, fun hin => ?_⟩
    · by_contra hno
      obtain ⟨hout, hex⟩ := not_or.mp hno
      refine hex (fun j hlo => Nat.lt_of_not_le fun hhi => ?_)
      exact hout (hmissing j hlo hhi).1.1
    · rcases hrest ⟨hin, hlt⟩ with h | h | h
      · exact Or.inl h
      · exact Or.inr h
      · exact absurd ((passes_iff_dvd he hblocks _).mpr (Nat.dvd_mul_left _ _)) h
  · rintro ⟨hreach, hmissing, hrest⟩
    refine ⟨hreach, fun j hlo hhi => ?_, fun hin => ?_, fun hno i _ => ?_⟩
    · rcases hmissing with hin | hnone
      · exact ⟨⟨hin, hlt⟩, (passes_iff_dvd he hblocks _).mpr (Nat.dvd_mul_left _ _)⟩
      · exact absurd hhi (Nat.not_le.mpr (hnone j hlo))
    · rcases hrest hin.1 with h | h
      · exact Or.inl h
      · exact Or.inr (Or.inl h)
    · rw [hstep]
      refine ⟨c.blocks_pos, fun hpass => ?_⟩
      have hdvd := (passes_iff_dvd he hblocks _).mp hpass
      exact firstSection_not_dvd hS c.blocks_pos (fun hin => hno ⟨hin, hlt⟩)
        ((Nat.dvd_add_left (Nat.dvd_mul_left c.blocks i)).mp hdvd)

/-- The missing blocks are added, and no others, exactly when the memory of the boot ends with a
block or in the last section of one, or no whole block is missing, and the memory of the device ends
with a block or in the first section of one; for blocks of any number of sections the mask decides
as well. -/
theorem missing_blocks_are_added_iff (c : Layout) (add_memory : Nat → Bool) {m d : Nat}
    (hmd : m < d) (hfits : d < 2 ^ 64) :
    (Onlines c add_memory m d ↔ CanOnline c m d) ∧
    ∀ e < 32, c.blocks = 2 ^ e → (Onlines c add_memory m d ↔
      (d % c.memory_block_size_bytes = 0 ∨ c.MIN_MEMORY_BLOCK_SIZE < d) ∧
      (EndsInLast c.MIN_MEMORY_BLOCK_SIZE c.blocks m ∨
        ∀ j, m ≤ j * c.memory_block_size_bytes → d < (j + 1) * c.memory_block_size_bytes) ∧
      (EndsInLast c.MIN_MEMORY_BLOCK_SIZE c.blocks m →
        d % c.memory_block_size_bytes ≤ c.MIN_MEMORY_BLOCK_SIZE ∨
          d / c.memory_block_size_bytes * c.memory_block_size_bytes < m)) :=
  ⟨onlines_iff hmd hfits, fun _ he hblocks => (onlines_iff hmd hfits).trans
    (canOnline_iff he hblocks)⟩

/-- Sections of 128 MiB, and blocks of 512 MiB. -/
def fourSections : Layout := ⟨27, 12, 4, by decide, by decide, by decide, by decide⟩

/-- The boot has the first GiB of two. -/
theorem the_second_gibibyte_is_added : Onlines fourSections (fun _ => true) (2 ^ 30) (2 ^ 31) :=
  ((missing_blocks_are_added_iff fourSections (fun _ => true) (by decide) (by decide)).2
    2 (by decide)
    rfl).mpr ⟨Or.inl (by decide), Or.inl (by decide), fun _ => Or.inl (by decide)⟩

/-- With 256 MiB more, a block is added that is half behind the end of the memory; and when the
memory of the boot ends 64 MiB later, in the first section of a block, nothing is added. -/
theorem a_block_behind_the_end_is_added :
    mem_online_remaining_blocks fourSections (fun _ => true) (2 ^ 30) (2 ^ 31 + 2 ^ 28) 4 =
        some ⟨[(2 ^ 30, 2 ^ 29), (2 ^ 30 + 2 ^ 29, 2 ^ 29), (2 ^ 31, 2 ^ 29)], 0⟩ ∧
    ¬ Onlines fourSections (fun _ => true) (2 ^ 30) (2 ^ 31 + 2 ^ 28) ∧
    mem_online_remaining_blocks fourSections (fun _ => true) (2 ^ 30 + 2 ^ 26) (2 ^ 31) 4 =
        some ⟨[], 1⟩ := by
  have hrun : mem_online_remaining_blocks fourSections (fun _ => true) (2 ^ 30)
    (2 ^ 31 + 2 ^ 28) 4 =
      some ⟨[(2 ^ 30, 2 ^ 29), (2 ^ 30 + 2 ^ 29, 2 ^ 29), (2 ^ 31, 2 ^ 29)], 0⟩ := by decide +kernel
  refine ⟨hrun, ?_, by decide +kernel⟩
  rintro ⟨turns, r, hr, hadds⟩
  obtain rfl := remaining_blocks_unique hr hrun
  have hend := ((hadds (2 ^ 31) (2 ^ 29)).mp (by decide)).2.2.2
  exact absurd hend (by decide)

end online

end mem_online
