-- The log of the boot loader (drivers/dump_boot_log.c), which a program reads piece
-- by piece from a file in sysfs. Each read prints the text behind its offset, and
-- a text ends at a zero byte, wherever the log ends.
import PlatformKernel.KpiReader
import Mathlib.Data.List.TakeWhile

namespace xbl_log

open boot_marker.kpi_reader (cstring scnprintf Printed INT_MAX)

/-! ## The driver and its reader -/

/-- `mem` is the memory from `xbl_log_buf_addr` on: the log, and what follows it. -/
def xbl_log_show (mem : List UInt8) (xbl_log_size offset count : Nat) : Printed :=
  if offset < xbl_log_size then scnprintf count mem offset else ⟨[], 0, []⟩

/-- A program that reads the file: its offset, what it has got, and the bytes that the driver has
looked at for it. -/
structure Reading where
  pos : Nat
  out : List UInt8
  places : List Nat
  deriving DecidableEq, Repr

section

variable (mem : List UInt8) (xbl_log_size : Nat)

/-- One read, with room for `count` bytes. -/
def read (r : Reading) (count : Nat) : Reading :=
  let p := xbl_log_show mem xbl_log_size r.pos count
  ⟨r.pos + p.ret, r.out ++ p.written.take p.ret, r.places ++ p.reads⟩

def reads (counts : List Nat) : Reading := counts.foldl (read mem xbl_log_size) ⟨0, [], []⟩

end

/-! ## A text in memory -/

variable {mem : List UInt8} {xbl_log_size : Nat}

/-- The memory is the text, and then nothing or a zero byte. -/
theorem text_in_memory (mem : List UInt8) :
    ∃ rest, mem = cstring mem 0 ++ rest ∧ (rest = [] ∨ ∃ bs, rest = 0 :: bs) := by
  refine ⟨mem.dropWhile (· ≠ 0), List.takeWhile_append_dropWhile.symm, ?_⟩
  cases hd : mem.dropWhile (· ≠ 0) with
  | nil => exact Or.inl rfl
  | cons b bs =>
    have hb := List.head?_dropWhile_not (fun b : UInt8 => decide (b ≠ 0)) mem
    rw [hd] at hb
    exact Or.inr ⟨bs, by simpa using hb⟩

theorem mem_cstring {b : UInt8} (h : b ∈ cstring mem 0) : decide (b ≠ 0) = true :=
  List.mem_takeWhile_imp (p := fun b : UInt8 => decide (b ≠ 0)) h

/-- The text behind an offset into a text. -/
theorem cstring_drop {off : Nat} (h : off ≤ (cstring mem 0).length) :
    cstring mem off = (cstring mem 0).drop off := by
  obtain ⟨rest, hmem, hrest⟩ := text_in_memory mem
  have hall : ∀ b ∈ (cstring mem 0).drop off, decide (b ≠ 0) = true :=
    fun b hb => mem_cstring (List.mem_of_mem_drop hb)
  have hnil : rest.takeWhile (fun b => decide (b ≠ 0)) = [] := by
    rcases hrest with rfl | ⟨bs, rfl⟩ <;> simp
  have hdrop : mem.drop off = (cstring mem 0).drop off ++ rest := by
    conv_lhs => rw [hmem]
    exact List.drop_append_of_le_length h
  rw [show cstring mem off = (mem.drop off).takeWhile (fun b => decide (b ≠ 0)) from rfl, hdrop,
    List.takeWhile_append_of_pos hall, hnil, List.append_nil]

/-- The log has a zero byte when its text ends in it. -/
theorem zero_mem_iff (hsize : xbl_log_size ≤ mem.length) :
    0 ∈ mem.take xbl_log_size ↔ (cstring mem 0).length < xbl_log_size := by
  obtain ⟨rest, hmem, hrest⟩ := text_in_memory mem
  generalize ht : cstring mem 0 = t at hmem
  have hzero : (0 : UInt8) ∉ t := by
    intro h
    rw [← ht] at h
    simpa using mem_cstring h
  have hlen := congrArg List.length hmem
  rw [List.length_append] at hlen
  rw [hmem, List.take_append, List.mem_append]
  constructor
  · rintro (h | h)
    · exact absurd (List.mem_of_mem_take h) hzero
    · by_contra hle
      rw [show xbl_log_size - t.length = 0 by omega] at h
      simp at h
  · intro h
    right
    rcases hrest with rfl | ⟨bs, rfl⟩
    · simp at hlen
      omega
    · rw [show xbl_log_size - t.length = xbl_log_size - t.length - 1 + 1 by omega,
        List.take_succ_cons]
      exact List.mem_cons_self

/-! ## The reads -/

/-- One read of a log that has its zero byte. -/
theorem read_eq (h : (cstring mem 0).length < xbl_log_size) {k count : Nat} {out : List UInt8}
    {places : List Nat} (hcount : count ≤ INT_MAX) :
    ∃ l, read mem xbl_log_size ⟨min k (cstring mem 0).length, out, places⟩ count =
        ⟨min (k + (count - 1)) (cstring mem 0).length,
          out ++ ((cstring mem 0).drop k).take (count - 1), places ++ l⟩ ∧
      ∀ p ∈ l, p < xbl_log_size := by
  have hoff : min k (cstring mem 0).length ≤ (cstring mem 0).length := Nat.min_le_right _ _
  have hdrop : (cstring mem 0).drop (min k (cstring mem 0).length) = (cstring mem 0).drop k := by
    by_cases hk : k ≤ (cstring mem 0).length
    · rw [Nat.min_eq_left hk]
    · rw [Nat.min_eq_right (by omega), List.drop_length, List.drop_of_length_le (by omega)]
  have hstr := cstring_drop hoff
  rw [hdrop] at hstr
  by_cases hc : count = 0
  · refine ⟨[], ?_, by simp⟩
    simp only [read, xbl_log_show, scnprintf]
    rw [if_pos (by omega), if_pos (Or.inl hc), hc]
    simp
  · refine ⟨List.range' (min k (cstring mem 0).length) ((cstring mem 0).length - k + 1), ?_, ?_⟩
    · simp only [read, xbl_log_show, scnprintf]
      rw [if_pos (by omega), if_neg (by omega), hstr]
      rw [List.take_left, List.length_take, List.length_drop]
      simp only [Reading.mk.injEq, and_true]
      omega
    · intro p hp
      obtain ⟨j, hj, rfl⟩ := List.mem_range'.mp hp
      omega

/-- A log that has its zero byte is read up to it, in pieces of any sizes. -/
theorem reads_eq (h : (cstring mem 0).length < xbl_log_size) (counts : List Nat)
    (hcounts : ∀ c ∈ counts, c ≤ INT_MAX) {k : Nat} {places : List Nat}
    (hplaces : ∀ p ∈ places, p < xbl_log_size) :
    ∃ l, counts.foldl (read mem xbl_log_size)
        ⟨min k (cstring mem 0).length, (cstring mem 0).take k, places⟩ =
        ⟨min (k + (counts.map (· - 1)).sum) (cstring mem 0).length,
          (cstring mem 0).take (k + (counts.map (· - 1)).sum), l⟩ ∧
      ∀ p ∈ l, p < xbl_log_size := by
  induction counts generalizing k places with
  | nil => exact ⟨places, by simp, hplaces⟩
  | cons c counts ih =>
    obtain ⟨l, hread, hl⟩ := @read_eq mem xbl_log_size h k c ((cstring mem 0).take k) places
      (hcounts c List.mem_cons_self)
    rw [List.foldl_cons, hread, ← List.take_add]
    have hmore : ∀ p ∈ places ++ l, p < xbl_log_size := by
      intro p hp
      rcases List.mem_append.mp hp with hp | hp
      · exact hplaces p hp
      · exact hl p hp
    obtain ⟨m, hrest, hm⟩ := ih (fun b hb => hcounts b (List.mem_cons_of_mem _ hb)) hmore
    exact ⟨m, by rw [hrest, List.map_cons, List.sum_cons, Nat.add_assoc], hm⟩

theorem places_grow (counts : List Nat) (r : Reading) :
    r.places <+: (counts.foldl (read mem xbl_log_size) r).places := by
  induction counts generalizing r with
  | nil => exact List.prefix_rfl
  | cons c counts ih =>
    rw [List.foldl_cons]
    exact (List.prefix_append _ _).trans (ih (read mem xbl_log_size r c))

/-- The first read with room goes over the end of a log that has no zero byte. -/
theorem reads_beyond (hsize : 0 < xbl_log_size) (h : xbl_log_size ≤ (cstring mem 0).length)
    {counts : List Nat} (hcounts : ∀ c ∈ counts, c ≤ INT_MAX) (hroom : ∃ c ∈ counts, 0 < c) :
    xbl_log_size ∈ (reads mem xbl_log_size counts).places := by
  unfold reads
  induction counts with
  | nil =>
    obtain ⟨c, hc, _⟩ := hroom
    simp at hc
  | cons c counts ih =>
    rw [List.foldl_cons]
    by_cases hc : c = 0
    · have hskip : read mem xbl_log_size ⟨0, [], []⟩ c = ⟨0, [], []⟩ := by
        simp [read, xbl_log_show, scnprintf, hc]
      rw [hskip]
      apply ih (fun b hb => hcounts b (List.mem_cons_of_mem _ hb))
      obtain ⟨b, hb, hpos⟩ := hroom
      rcases List.mem_cons.mp hb with rfl | hb
      · exact absurd hc (by omega)
      · exact ⟨b, hb, hpos⟩
    · apply (places_grow counts _).subset
      have hmax := hcounts c List.mem_cons_self
      simp only [read, xbl_log_show, scnprintf]
      rw [if_pos hsize, if_neg (by omega)]
      simp only [List.nil_append, List.mem_range'_1]
      omega

/-- A program that reads the log in pieces, of which one at least has room, makes the driver look
behind the end of the log if and only if no byte of it is zero. When there is one, the program
gets the text before it without a gap, and a piece of one byte is empty. -/
theorem the_log_is_read_to_its_zero_byte (hsize : 0 < xbl_log_size)
    (hmem : xbl_log_size ≤ mem.length) {counts : List Nat} (hcounts : ∀ c ∈ counts, c ≤ INT_MAX)
    (hroom : ∃ c ∈ counts, 0 < c) :
    ((∀ p ∈ (reads mem xbl_log_size counts).places, p < xbl_log_size) ↔
        0 ∈ mem.take xbl_log_size) ∧
      (0 ∈ mem.take xbl_log_size →
        (reads mem xbl_log_size counts).out = (cstring mem 0).take (counts.map (· - 1)).sum) := by
  rw [zero_mem_iff hmem]
  have hread : (cstring mem 0).length < xbl_log_size →
      (∀ p ∈ (reads mem xbl_log_size counts).places, p < xbl_log_size) ∧
        (reads mem xbl_log_size counts).out = (cstring mem 0).take (counts.map (· - 1)).sum := by
    intro h
    obtain ⟨l, heq, hl⟩ := @reads_eq mem xbl_log_size h counts hcounts 0 [] (by simp)
    simp only [Nat.zero_min, List.take_zero, Nat.zero_add] at heq
    rw [reads, heq]
    exact ⟨hl, rfl⟩
  refine ⟨⟨?_, fun h => (hread h).1⟩, fun h => (hread h).2⟩
  intro h
  by_contra hlen
  have := h _ (reads_beyond hsize (Nat.not_lt.mp hlen) hcounts hroom)
  omega

/-- A log of four bytes with its zero in the third, and another byte behind it. -/
theorem a_log_in_three_pieces :
    ((∀ p ∈ (reads [72, 105, 0, 88, 89] 4 [2, 1, 4096]).places, p < 4) ↔
        (0 : UInt8) ∈ [72, 105, 0, 88]) ∧
      (reads [72, 105, 0, 88, 89] 4 [2, 1, 4096]).out = [72, 105] := by
  have h := @the_log_is_read_to_its_zero_byte [72, 105, 0, 88, 89] 4 (by decide) (by decide)
    [2, 1, 4096] (by decide) ⟨2, by simp, by decide⟩
  exact ⟨h.1, h.2 (by decide)⟩

end xbl_log
