-- The end of the memory of the device (drivers/mem-online.c): update_dram_end_address
-- goes through the entries of the memory node, keeps the end of the one with the
-- largest base, and lets the user move it down.
import Mathlib.Algebra.Group.Nat.Defs
import Mathlib.Data.List.Basic

namespace mem_online

inductive Errno
  | EINVAL
  deriving DecidableEq, Repr

/-- The part of the device tree that is read: the cells of the `reg` property of the memory node,
when there are a node and a property, and how many of them make an address and a size. -/
structure DeviceTree where
  memory : Option (Option (List UInt32))
  nr_address_cells : Nat
  nr_size_cells : Nat

/-- `of_read_number`: a u64 of the first cells. -/
def of_read_number (pos : List UInt32) (size : Nat) : Nat :=
  (pos.take size).foldl (fun r cell => (r <<< 32 ||| cell.toNat) % 2 ^ 64) 0

/-- The loop over the entries. -/
def entries_loop (dt : DeviceTree) : Nat → List UInt32 → Nat → Nat → Nat
  | 0, _, _, addr => addr
  | num_entries + 1, pos, max_base, addr =>
    let base := of_read_number pos dt.nr_address_cells
    let size := of_read_number (pos.drop dt.nr_address_cells) dt.nr_size_cells
    let pos := pos.drop (dt.nr_address_cells + dt.nr_size_cells)
    if max_base < base then entries_loop dt num_entries pos base ((base + size) % 2 ^ 64)
    else entries_loop dt num_entries pos max_base addr

def num_entries (dt : DeviceTree) (prop : List UInt32) : Nat :=
  prop.length / (dt.nr_address_cells + dt.nr_size_cells)

def update_dram_end_address (dt : DeviceTree) (ram_size movable_start : Nat) : Except Errno Nat :=
  match dt.memory with
  | none => .error .EINVAL
  | some none => .error .EINVAL
  | some (some prop) =>
    let addr := entries_loop dt (num_entries dt prop) prop 0 0
    .ok (if ram_size < addr ∧ movable_start < ram_size ∧ 0 < ram_size then ram_size else addr)

/-! ## The entries -/

structure Entry where
  base : Nat
  size : Nat
  deriving DecidableEq, Repr

def Entry.stop (e : Entry) : Nat := e.base + e.size

/-- No address is in both. -/
def Entry.Apart (e f : Entry) : Prop :=
  ∀ a, ¬ (e.base ≤ a ∧ a < e.stop ∧ f.base ≤ a ∧ a < f.stop)

theorem Entry.Apart.symm {e f : Entry} (h : e.Apart f) : f.Apart e :=
  fun a ha => h a ⟨ha.2.2.1, ha.2.2.2, ha.1, ha.2.1⟩

def read_entries (dt : DeviceTree) : Nat → List UInt32 → List Entry
  | 0, _ => []
  | n + 1, pos =>
    ⟨of_read_number pos dt.nr_address_cells,
      of_read_number (pos.drop dt.nr_address_cells) dt.nr_size_cells⟩ ::
      read_entries dt n (pos.drop (dt.nr_address_cells + dt.nr_size_cells))

/-- The entries of a `reg` property. -/
def entries (dt : DeviceTree) (prop : List UInt32) : List Entry :=
  read_entries dt (num_entries dt prop) prop

/-- The largest end of the entries. -/
def dram_end (l : List Entry) : Nat := (l.map Entry.stop).foldr max 0

/-- What the user asks for, when it lies between the memory of the boot and the end. -/
def bounded (ram_size movable_start stop : Nat) : Nat :=
  if movable_start < ram_size ∧ ram_size < stop then ram_size else stop

/-- The first of the entries with the largest base. -/
def Last (l : List Entry) (e : Entry) : Prop :=
  ∃ pre post, l = pre ++ e :: post ∧ (∀ x ∈ pre, x.base < e.base) ∧ ∀ x ∈ post, x.base ≤ e.base

/-- A property with the cells of these entries, two for an address and two for a size. -/
def encode (l : List Entry) : List UInt32 :=
  l.flatMap (fun e => [UInt32.ofNat (e.base / 2 ^ 32), UInt32.ofNat e.base,
    UInt32.ofNat (e.size / 2 ^ 32), UInt32.ofNat e.size])

theorem of_read_number_two {v : Nat} (hv : v < 2 ^ 64) (pos : List UInt32) :
    of_read_number (UInt32.ofNat (v / 2 ^ 32) :: UInt32.ofNat v :: pos) 2 = v := by
  have hlow : v % 2 ^ 32 < 2 ^ 32 := Nat.mod_lt _ (by decide)
  have hhigh : v / 2 ^ 32 < 2 ^ 32 := by omega
  simp only [of_read_number, List.take_succ_cons, List.take_zero, List.foldl_cons, List.foldl_nil,
    Nat.zero_shiftLeft, Nat.zero_or, UInt32.toNat_ofNat']
  rw [Nat.mod_eq_of_lt hhigh, Nat.mod_eq_of_lt (show v / 2 ^ 32 < 2 ^ 64 by omega),
    ← Nat.shiftLeft_add_eq_or_of_lt hlow, Nat.shiftLeft_eq]
  omega

/-- Every list of entries is that of a property. -/
theorem entries_encode (l : List Entry) (h : ∀ e ∈ l, e.base < 2 ^ 64 ∧ e.size < 2 ^ 64)
    (memory : Option (Option (List UInt32))) : entries ⟨memory, 2, 2⟩ (encode l) = l := by
  have hlen : num_entries ⟨memory, 2, 2⟩ (encode l) = l.length := by
    simp [num_entries, encode, List.length_flatMap]
  unfold entries
  rw [hlen]
  clear hlen
  induction l with
  | nil => rfl
  | cons e l ih =>
    obtain ⟨hbase, hsize⟩ := h e List.mem_cons_self
    have hrest := ih (fun x hx => h x (List.mem_cons_of_mem _ hx))
    simp only [encode, List.flatMap_cons, List.cons_append, List.nil_append, List.length_cons,
      read_entries, List.drop_succ_cons, List.drop_zero, of_read_number_two hbase,
      of_read_number_two hsize]
    rw [← encode, hrest]

/-! ## What the loop keeps -/

/-- One turn of the loop: an entry with a base above the largest one takes its place. -/
def pick (kept : Nat × Nat) (e : Entry) : Nat × Nat :=
  if kept.1 < e.base then (e.base, e.stop % 2 ^ 64) else kept

theorem entries_loop_eq (dt : DeviceTree) (n : Nat) (pos : List UInt32) (max_base addr : Nat) :
    entries_loop dt n pos max_base addr =
      ((read_entries dt n pos).foldl pick (max_base, addr)).2 := by
  induction n generalizing pos max_base addr with
  | zero => rfl
  | succ n ih =>
    simp only [entries_loop, read_entries, List.foldl_cons, pick]
    split
    · exact ih _ _ _
    · exact ih _ _ _

theorem foldl_pick_of_le {l : List Entry} {kept : Nat × Nat} (h : ∀ x ∈ l, x.base ≤ kept.1) :
    l.foldl pick kept = kept := by
  induction l with
  | nil => rfl
  | cons e l ih =>
    have hle := h e List.mem_cons_self
    rw [List.foldl_cons, pick, if_neg (by omega)]
    exact ih (fun x hx => h x (List.mem_cons_of_mem _ hx))

theorem foldl_pick_lt {l : List Entry} {kept : Nat × Nat} {base : Nat} (hkept : kept.1 < base)
    (h : ∀ x ∈ l, x.base < base) : (l.foldl pick kept).1 < base := by
  induction l generalizing kept with
  | nil => exact hkept
  | cons e l ih =>
    rw [List.foldl_cons]
    refine ih ?_ (fun x hx => h x (List.mem_cons_of_mem _ hx))
    unfold pick
    split
    · exact h e List.mem_cons_self
    · exact hkept

/-- The loop keeps the end of the last entry, when its base is larger than the 0 with which
`max_base` begins. -/
theorem Last.kept {l : List Entry} {e : Entry} (h : Last l e) :
    (l.foldl pick (0, 0)).2 = if 0 < e.base then e.stop % 2 ^ 64 else 0 := by
  obtain ⟨pre, post, rfl, hpre, hpost⟩ := h
  split
  · rename_i hbase
    have hlt : (pre.foldl pick (0, 0)).1 < e.base := foldl_pick_lt hbase hpre
    have hpick : pick (pre.foldl pick (0, 0)) e = (e.base, e.stop % 2 ^ 64) := if_pos hlt
    rw [List.foldl_append, List.foldl_cons, hpick, foldl_pick_of_le hpost]
  · rename_i hbase
    have hall : ∀ x ∈ pre ++ e :: post, x.base ≤ 0 := by
      intro x hx
      rcases List.mem_append.mp hx with hx | hx
      · have := hpre x hx
        omega
      rcases List.mem_cons.mp hx with rfl | hx
      · omega
      · have := hpost x hx
        omega
    rw [foldl_pick_of_le hall]

theorem Last.mem {l : List Entry} {e : Entry} (h : Last l e) : e ∈ l := by
  obtain ⟨pre, post, rfl, _, _⟩ := h
  exact List.mem_append_right _ List.mem_cons_self

theorem Last.base_le {l : List Entry} {e x : Entry} (h : Last l e) (hx : x ∈ l) :
    x.base ≤ e.base := by
  obtain ⟨pre, post, rfl, hpre, hpost⟩ := h
  rcases List.mem_append.mp hx with hx | hx
  · exact Nat.le_of_lt (hpre x hx)
  rcases List.mem_cons.mp hx with rfl | hx
  · exact Nat.le_refl _
  · exact hpost x hx

theorem exists_last {l : List Entry} (hne : l ≠ []) : ∃ e, Last l e := by
  induction l with
  | nil => exact absurd rfl hne
  | cons a l ih =>
    rcases l with _ | ⟨b, l⟩
    · exact ⟨a, [], [], rfl, by simp, by simp⟩
    obtain ⟨e, pre, post, he, hpre, hpost⟩ := ih (by simp)
    by_cases hlt : a.base < e.base
    · refine ⟨e, a :: pre, post, by rw [he]; rfl, ?_, hpost⟩
      intro x hx
      rcases List.mem_cons.mp hx with rfl | hx
      · exact hlt
      · exact hpre x hx
    · refine ⟨a, [], b :: l, rfl, by simp, ?_⟩
      intro x hx
      have hlast : Last (b :: l) e := ⟨pre, post, he, hpre, hpost⟩
      have := hlast.base_le hx
      omega

/-- An entry that is not empty ends behind all entries that begin before it. -/
theorem Last.stop_le {l : List Entry} {e x : Entry} (h : Last l e) (hdisj : l.Pairwise Entry.Apart)
    (hsize : 0 < e.size) (hx : x ∈ l) : x.stop ≤ e.stop := by
  have hle := h.base_le hx
  by_contra hlt
  have hapart : x.Apart e := by
    obtain ⟨pre, post, rfl, _, _⟩ := h
    obtain ⟨_, hpost, hcross⟩ := List.pairwise_append.mp hdisj
    rcases List.mem_append.mp hx with hx | hx
    · exact hcross x hx e List.mem_cons_self
    rcases List.mem_cons.mp hx with rfl | hx
    · exact absurd (Nat.le_refl _) hlt
    · exact ((List.pairwise_cons.mp hpost).1 x hx).symm
  unfold Entry.stop at hlt
  refine hapart e.base ⟨hle, ?_, Nat.le_refl _, ?_⟩
  · unfold Entry.stop
    omega
  · unfold Entry.stop
    omega

theorem stop_le_dram_end {l : List Entry} {e : Entry} (he : e ∈ l) : e.stop ≤ dram_end l := by
  induction l with
  | nil => cases he
  | cons x l ih =>
    have hcons : dram_end (x :: l) = max x.stop (dram_end l) := rfl
    rcases List.mem_cons.mp he with rfl | he
    · omega
    · have := ih he
      omega

theorem dram_end_le {l : List Entry} {b : Nat} (h : ∀ e ∈ l, e.stop ≤ b) : dram_end l ≤ b := by
  induction l with
  | nil => exact Nat.zero_le b
  | cons x l ih =>
    have hcons : dram_end (x :: l) = max x.stop (dram_end l) := rfl
    have hx := h x List.mem_cons_self
    have hl := ih (fun e he => h e (List.mem_cons_of_mem _ he))
    omega

/-! ## When the result is right -/

/-- The entry with the largest base is seen by the loop and ends last; or there is no memory; or
what the user asks for hides the difference. -/
def SeesEnd (l : List Entry) (ram_size movable_start : Nat) : Prop :=
  (∃ e, Last l e ∧ 0 < e.base ∧ (0 < e.size ∨ ∀ x ∈ l, x.stop ≤ e.base)) ∨
  (∀ x ∈ l, x.base = 0 ∧ x.size = 0) ∨
  (movable_start < ram_size ∧ ∃ e, Last l e ∧ 0 < e.base ∧ ram_size ≤ e.stop)

theorem update_eq {dt : DeviceTree} {prop : List UInt32} (hreg : dt.memory = some (some prop))
    (ram_size movable_start : Nat) : update_dram_end_address dt ram_size movable_start =
      .ok (bounded ram_size movable_start ((entries dt prop).foldl pick (0, 0)).2) := by
  unfold update_dram_end_address bounded entries
  rw [hreg]
  dsimp only
  rw [entries_loop_eq]
  congr 1
  apply ite_congr
  · apply propext
    omega
  · exact fun _ => rfl
  · exact fun _ => rfl

/-- A smaller end gives the same result only when it hides behind what the user asks for. -/
theorem bounded_eq_iff {ram_size movable_start a b : Nat} (hab : a ≤ b) :
    bounded ram_size movable_start a = bounded ram_size movable_start b ↔
      a = b ∨ (movable_start < ram_size ∧ ram_size ≤ a) := by
  unfold bounded
  constructor
  · intro h
    split at h
    · omega
    · split at h
      · omega
      · omega
  · rintro (rfl | ⟨hlo, hhi⟩)
    · rfl
    · by_cases hlt : ram_size < a
      · rw [if_pos ⟨hlo, hlt⟩, if_pos ⟨hlo, by omega⟩]
      · rw [if_neg (by omega)]
        split
        · omega
        · omega

theorem Last.sees_end_iff {l : List Entry} {e : Entry} (h : Last l e)
    (hdisj : l.Pairwise Entry.Apart) (hfits : ∀ x ∈ l, x.stop < 2 ^ 64)
    (ram_size movable_start : Nat) :
    (l.foldl pick (0, 0)).2 ≤ dram_end l ∧
    ((l.foldl pick (0, 0)).2 = dram_end l ∨
      (movable_start < ram_size ∧ ram_size ≤ (l.foldl pick (0, 0)).2) ↔
      SeesEnd l ram_size movable_start) := by
  have hkept : ∀ f, Last l f → (l.foldl pick (0, 0)).2 = if 0 < f.base then f.stop else 0 := by
    intro f hf
    rw [hf.kept, Nat.mod_eq_of_lt (hfits f hf.mem)]
  have hle := stop_le_dram_end h.mem
  refine ⟨?_, ?_, ?_⟩
  · rw [hkept e h]
    split
    · exact hle
    · exact Nat.zero_le _
  · rw [hkept e h]
    split
    · rename_i hbase
      rintro (heq | hhide)
      · refine Or.inl ⟨e, h, hbase, ?_⟩
        by_cases hsize : 0 < e.size
        · exact Or.inl hsize
        · refine Or.inr (fun x hx => ?_)
          have hx := stop_le_dram_end hx
          unfold Entry.stop at heq hx ⊢
          omega
      · exact Or.inr (Or.inr ⟨hhide.1, e, h, hbase, hhide.2⟩)
    · rename_i hbase
      rintro (heq | hhide)
      · refine Or.inr (Or.inl (fun x hx => ?_))
        have hx := stop_le_dram_end hx
        unfold Entry.stop at hx
        omega
      · omega
  · rintro (⟨f, hf, hbase, hends⟩ | hzero | ⟨hlo, f, hf, hbase, hhi⟩)
    · left
      rw [hkept f hf, if_pos hbase]
      refine Nat.le_antisymm (stop_le_dram_end hf.mem) (dram_end_le (fun x hx => ?_))
      rcases hends with hsize | hall
      · exact hf.stop_le hdisj hsize hx
      · exact Nat.le_trans (hall x hx) (Nat.le_add_right _ _)
    · left
      have hbase := (hzero e h.mem).1
      have hend : dram_end l ≤ 0 := by
        refine dram_end_le (fun x hx => ?_)
        obtain ⟨hx, hsize⟩ := hzero x hx
        unfold Entry.stop
        omega
      rw [hkept e h, if_neg (by omega)]
      omega
    · right
      rw [hkept f hf, if_pos hbase]
      exact ⟨hlo, hhi⟩

/-- The function finds the end of the memory exactly when the loop sees the entry that ends
last. -/
theorem dram_end_is_found_iff {dt : DeviceTree} {prop : List UInt32}
    (hreg : dt.memory = some (some prop)) (hne : entries dt prop ≠ [])
    (hdisj : (entries dt prop).Pairwise Entry.Apart)
    (hfits : ∀ e ∈ entries dt prop, e.stop < 2 ^ 64) (ram_size movable_start : Nat) :
    update_dram_end_address dt ram_size movable_start =
        .ok (bounded ram_size movable_start (dram_end (entries dt prop))) ↔
      SeesEnd (entries dt prop) ram_size movable_start := by
  obtain ⟨e, he⟩ := exists_last hne
  obtain ⟨hle, hiff⟩ := he.sees_end_iff hdisj hfits ram_size movable_start
  rw [update_eq hreg, ← hiff, ← bounded_eq_iff hle, Except.ok.injEq]

/-- Memory at 2 GiB and at 36 GiB, the upper part first. -/
def banks : List Entry := [⟨0x900000000, 0x80000000⟩, ⟨0x80000000, 0x80000000⟩]

def twoBanks : DeviceTree := ⟨some (some (encode banks)), 2, 2⟩

theorem the_end_of_two_banks_is_found :
    update_dram_end_address twoBanks 0 0x100000000 = .ok 0x980000000 := by
  have hentries : entries twoBanks (encode banks) = banks := entries_encode banks (by decide) _
  have hapart : Entry.Apart ⟨0x900000000, 0x80000000⟩ ⟨0x80000000, 0x80000000⟩ := by
    intro a ha
    simp only [Entry.stop] at ha
    omega
  have hfound := @dram_end_is_found_iff twoBanks (encode banks) rfl
    (by rw [hentries]; decide) (by rw [hentries]; exact List.pairwise_pair.mpr hapart)
    (by rw [hentries]; decide) 0 0x100000000
  rw [hentries] at hfound
  exact hfound.mpr (Or.inl ⟨_, ⟨[], _, rfl, by decide, by decide⟩, by decide, Or.inl (by decide)⟩)

/-- A device with all of its memory at 0. -/
def oneBank : DeviceTree := ⟨some (some (encode [⟨0, 0x80000000⟩])), 2, 2⟩

theorem the_end_of_a_bank_at_zero_is_not_found :
    entries oneBank (encode [⟨0, 0x80000000⟩]) = [⟨0, 0x80000000⟩] ∧
    update_dram_end_address oneBank 0 0x40000000 = .ok 0 ∧
    bounded 0 0x40000000 (dram_end [⟨0, 0x80000000⟩]) = 0x80000000 :=
  ⟨by decide, by rfl, by decide⟩

end mem_online
