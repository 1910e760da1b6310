-- The sum of the characters of a marker's name, by which the hash table of the boot
-- markers finds its bucket. The loop counts down from the length of the name and
-- tests it at the bottom, so it reads before it knows that there is something.
import PlatformKernel.BootMarkers

namespace boot_marker.marker_charsum

open numerals

/-- A C string and the memory around its pointer: the bytes of the string, and the byte 0 that
ends it. -/
structure CString where
  mem : Int → UInt8
  bytes : Text
  no_nul : 0 ∉ bytes
  stored : ∀ i : Nat, i < bytes.length → mem i = bytes.getD i 0
  ends : mem bytes.length = 0

def strlen (name : CString) : Nat := name.bytes.length

/-- The variables of the loop, and the places that it has read. -/
structure Loop where
  len : BitVec 32
  sum : UInt32
  reads : List Int
  deriving DecidableEq, Repr

/-- The body of the loop. `len` is an int, and the kernel is compiled to let it wrap. -/
def turn (name : CString) (l : Loop) : Loop :=
  let len := l.len - 1
  ⟨len, l.sum + (name.mem len.toInt).toUInt32, l.reads ++ [len.toInt]⟩

/-- The loop with its test at the bottom, for at most so many turns. -/
def charsum_loop (name : CString) : Nat → Loop → Option Loop
  | 0, _ => none
  | turns + 1, l =>
    let l := turn name l
    if l.len = 0 then some l else charsum_loop name turns l

def calculate_marker_charsum (name : CString) (turns : Nat) : Option Loop :=
  charsum_loop name turns ⟨BitVec.ofNat 32 (strlen name), 0, []⟩

/-- The sum of the characters modulo 2^32. -/
def charsum (name : Text) : UInt32 := UInt32.ofNat (name.map UInt8.toNat).sum

/-- The function returns the sum, and it reads no byte but those of the string. -/
def SumsUp (name : CString) : Prop :=
  ∃ turns l, calculate_marker_charsum name turns = some l ∧
    (∀ i ∈ l.reads, 0 ≤ i ∧ i < name.bytes.length) ∧ l.sum = charsum name.bytes

/-- The string that bootkpi_writer passes to place_marker, when the user writes these bytes:
the caller ends them with a 0, and `buf` takes all but two bytes of MARKER_STRING_WIDTH. -/
def bootkpi_writer (user_buffer : Text) : Option Text :=
  if MARKER_STRING_WIDTH ≤ user_buffer.length then none
  else some ((user_buffer.takeWhile (· ≠ 0)).take (MARKER_STRING_WIDTH - 1 - 1))

/-! ## The sum -/

theorem charsum_append (s t : Text) : charsum (s ++ t) = charsum s + charsum t := by
  simp [charsum]

theorem charsum_singleton (b : UInt8) : charsum [b] = b.toUInt32 := by
  apply UInt32.toNat_inj.mp
  have hb := b.toNat_lt
  simp [charsum]

theorem charsum_take_succ {s : Text} {k : Nat} (h : k < s.length) :
    charsum (s.take (k + 1)) = charsum (s.take k) + (s.getD k 0).toUInt32 := by
  have hget : s.getD k 0 = s[k] := by simp [List.getD_eq_getElem?_getD, h]
  rw [List.take_succ_eq_append_getElem h, charsum_append, charsum_singleton, hget]

/-- The sum of the model that counts turns down to 0. -/
theorem charsum_loop_eq (name : Text) (k : Nat) (hk : k ≤ name.length) (sum : UInt32) :
    boot_marker.charsum_loop name k sum = sum + charsum (name.take k) := by
  induction k generalizing sum with
  | zero => simp [boot_marker.charsum_loop, charsum]
  | succ k ih =>
    rw [boot_marker.charsum_loop, ih (by omega), charsum_take_succ (by omega), UInt32.add_assoc,
      UInt32.add_comm (charsum _)]

theorem calculate_marker_charsum_eq (name : Text) :
    boot_marker.calculate_marker_charsum name = charsum name := by
  rw [boot_marker.calculate_marker_charsum, charsum_loop_eq name _ (Nat.le_refl _),
    List.take_length, UInt32.zero_add]

/-! ## The loop -/

theorem charsum_loop_reads {name : CString} {turns : Nat} {l l' : Loop}
    (h : charsum_loop name turns l = some l') {i : Int} (hi : i ∈ l.reads) : i ∈ l'.reads := by
  induction turns generalizing l with
  | zero => cases h
  | succ turns ih =>
    rw [charsum_loop] at h
    have hmem : i ∈ (turn name l).reads := List.mem_append_left _ hi
    split at h
    · cases h
      exact hmem
    · exact ih h hmem

/-- The first thing that the loop does is to read behind `len`. -/
theorem charsum_loop_first {name : CString} {turns : Nat} {l l' : Loop}
    (h : charsum_loop name turns l = some l') : (l.len - 1).toInt ∈ l'.reads := by
  cases turns with
  | zero => cases h
  | succ turns =>
    rw [charsum_loop] at h
    have hmem : (l.len - 1).toInt ∈ (turn name l).reads :=
      List.mem_append_right _ (List.mem_singleton.mpr rfl)
    split at h
    · cases h
      exact hmem
    · exact charsum_loop_reads h hmem

theorem charsum_loop_unique {name : CString} {turns turns' : Nat} {l l₁ l₂ : Loop}
    (h₁ : charsum_loop name turns l = some l₁) (h₂ : charsum_loop name turns' l = some l₂) :
    l₁ = l₂ := by
  induction turns generalizing turns' l with
  | zero => cases h₁
  | succ turns ih =>
    cases turns' with
    | zero => cases h₂
    | succ turns' =>
      rw [charsum_loop] at h₁ h₂
      by_cases h0 : (turn name l).len = 0
      · rw [if_pos h0] at h₁ h₂
        cases h₁
        cases h₂
        rfl
      · rw [if_neg h0] at h₁ h₂
        exact ih h₁ h₂

/-- The int after one more `--len`, while it is not negative. -/
theorem toInt_pred {len : BitVec 32} {k : Nat} (hlen : len.toNat = k + 1) (hk : k < 2 ^ 31) :
    (len - 1).toNat = k ∧ (len - 1).toInt = k := by
  have hpred : (len - 1).toNat = k := by
    rw [BitVec.toNat_sub, hlen, show (1 : BitVec 32).toNat = 1 from rfl]
    omega
  refine ⟨hpred, ?_⟩
  rw [BitVec.toInt_eq_toNat_of_lt (by omega), hpred]

/-- From a length that fits an int, the loop adds the first characters up and reads no others. -/
theorem charsum_loop_sums (name : CString) (k : Nat) (hk : k < 2 ^ 31) (hlt : k < name.bytes.length)
    (l : Loop) (hlen : l.len.toNat = k + 1) :
    ∃ l', charsum_loop name (k + 1) l = some l' ∧
      l'.sum = l.sum + charsum (name.bytes.take (k + 1)) ∧
      ∀ i ∈ l'.reads, i ∈ l.reads ∨ (0 ≤ i ∧ i ≤ k) := by
  induction k generalizing l with
  | zero =>
    obtain ⟨hnat, hint⟩ := toInt_pred hlen hk
    have h0 : (turn name l).len = 0 := BitVec.eq_of_toNat_eq hnat
    refine ⟨turn name l, by rw [charsum_loop, if_pos h0], ?_, ?_⟩
    · simp only [turn, hint]
      rw [name.stored 0 hlt, charsum_take_succ hlt]
      simp [charsum]
    · intro i hi
      rcases List.mem_append.mp hi with hi | hi
      · exact Or.inl hi
      · obtain rfl := List.mem_singleton.mp hi
        exact Or.inr (by omega)
  | succ k ih =>
    obtain ⟨hnat, hint⟩ := toInt_pred hlen hk
    have h0 : (turn name l).len ≠ 0 := by
      intro h
      rw [show (l.len - 1).toNat = 0 from congrArg BitVec.toNat h] at hnat
      omega
    obtain ⟨l', hl', hsum, hreads⟩ := ih (by omega) (by omega) (turn name l) hnat
    refine ⟨l', by rw [charsum_loop, if_neg h0, hl'], ?_, ?_⟩
    · rw [hsum]
      simp only [turn, hint]
      rw [name.stored (k + 1) hlt, charsum_take_succ hlt, UInt32.add_assoc,
        UInt32.add_comm (UInt8.toUInt32 _)]
    · intro i hi
      rcases hreads i hi with hi | hi
      · rcases List.mem_append.mp hi with hi | hi
        · exact Or.inl hi
        · obtain rfl := List.mem_singleton.mp hi
          exact Or.inr (by omega)
      · exact Or.inr (by omega)

/-! ## Which names it sums up -/

/-- The length as the function has it: an int, which keeps 32 bits. -/
def CString.len (name : CString) : Nat := name.bytes.length % 2 ^ 32

theorem CString.len_le (name : CString) : name.len ≤ name.bytes.length := Nat.mod_le _ _

theorem start_toNat (name : CString) : (BitVec.ofNat 32 (strlen name)).toNat = name.len := by
  rw [BitVec.toNat_ofNat]
  rfl

/-- The first read is no byte of the string when the length is 0 or too large for an int. -/
theorem reads_outside {len : BitVec 32} (hlen : len.toNat = 0 ∨ 2 ^ 31 < len.toNat) :
    (len - 1).toInt < 0 := by
  have hlt := len.isLt
  rcases hlen with h0 | hbig
  · obtain rfl : len = 0 := BitVec.eq_of_toNat_eq h0
    decide
  · have hpred : (len - 1).toNat = len.toNat - 1 := by
      rw [BitVec.toNat_sub, show (1 : BitVec 32).toNat = 1 from rfl]
      omega
    rw [BitVec.toInt_eq_toNat_bmod, hpred, Int.bmod_def]
    omega

theorem sums_up_iff (name : CString) :
    SumsUp name ↔ 0 < name.len ∧ name.len ≤ 2 ^ 31 ∧ charsum (name.bytes.drop name.len) = 0 := by
  have hstart := start_toNat name
  by_cases hlen : 0 < name.len ∧ name.len ≤ 2 ^ 31
  · have hpred : name.len - 1 + 1 = name.len := by omega
    have hle := name.len_le
    obtain ⟨l, hl, hsum, hreads⟩ := charsum_loop_sums name (name.len - 1) (by omega) (by omega)
      ⟨BitVec.ofNat 32 (strlen name), 0, []⟩ (by rw [hpred]; exact hstart)
    rw [hpred, UInt32.zero_add] at hsum
    have hsplit : charsum name.bytes =
        charsum (name.bytes.take name.len) + charsum (name.bytes.drop name.len) := by
      rw [← charsum_append, List.take_append_drop]
    have hin : ∀ i ∈ l.reads, 0 ≤ i ∧ i < (name.bytes.length : Int) := by
      intro i hi
      rcases hreads i hi with hi | hi
      · cases hi
      · omega
    constructor
    · rintro ⟨turns, l₂, hl₂, _, hsum₂⟩
      obtain rfl := charsum_loop_unique hl hl₂
      refine ⟨hlen.1, hlen.2, ?_⟩
      rw [hsum₂, hsplit] at hsum
      exact UInt32.add_eq_left.mp hsum
    · rintro ⟨_, _, hrest⟩
      refine ⟨_, l, hl, hin, ?_⟩
      rw [hsum, hsplit, hrest, UInt32.add_zero]
  · constructor
    · rintro ⟨turns, l, hl, hin, _⟩
      have hneg := reads_outside (show (BitVec.ofNat 32 (strlen name)).toNat = 0 ∨
        2 ^ 31 < (BitVec.ofNat 32 (strlen name)).toNat by omega)
      have hfirst := hin _ (charsum_loop_first hl)
      dsimp only at hfirst
      omega
    · rintro ⟨h0, hle, _⟩
      exact absurd ⟨h0, hle⟩ hlen

/-- A name whose length fits an int is summed up when it is not empty. -/
theorem sums_up_iff_of_fits {name : CString} (hfits : name.bytes.length ≤ 2 ^ 31) :
    SumsUp name ↔ name.bytes ≠ [] := by
  have hlen : name.len = name.bytes.length := Nat.mod_eq_of_lt (by omega)
  rw [sums_up_iff, hlen, ← List.length_pos_iff, List.drop_length]
  constructor
  · exact fun h => h.1
  · exact fun h => ⟨h, hfits, rfl⟩

theorem bootkpi_writer_some {user_buffer t : Text} (h : bootkpi_writer user_buffer = some t) :
    t.length < MARKER_STRING_WIDTH ∧ (t = [] ↔ user_buffer = [] ∨ user_buffer.head? = some 0) := by
  unfold bootkpi_writer at h
  split at h
  · cases h
  cases h
  refine ⟨?_, ?_⟩
  · rw [List.length_take]
    simp only [MARKER_STRING_WIDTH]
    omega
  · cases user_buffer with
    | nil => simp
    | cons b bs =>
      by_cases hb : b = 0
      · simp [hb]
      · simp [hb, MARKER_STRING_WIDTH]

/-- The hash table of the markers has a name that is summed up in the bucket of what the loop
returns. -/
theorem SumsUp.bucket {name : CString} (h : SumsUp name) :
    ∃ turns l, calculate_marker_charsum name turns = some l ∧
      hash_min l.sum = boot_marker.bucket name.bytes := by
  obtain ⟨turns, l, hl, _, hsum⟩ := h
  exact ⟨turns, l, hl, by rw [hsum, boot_marker.bucket, calculate_marker_charsum_eq]⟩

/-- Every name whose length fits an int is summed up when it is not empty, so a name that
bootkpi_writer passes on is when the user writes something that does not begin with a 0. Of a longer
name the function sees the length modulo 2^32. -/
theorem names_are_summed_up_iff (name : CString) :
    (SumsUp name ↔
      0 < name.len ∧ name.len ≤ 2 ^ 31 ∧ charsum (name.bytes.drop name.len) = 0) ∧
    (name.bytes.length ≤ 2 ^ 31 → (SumsUp name ↔ name.bytes ≠ [])) ∧
    ∀ user_buffer : Text, bootkpi_writer user_buffer = some name.bytes →
      (SumsUp name ↔ user_buffer ≠ [] ∧ user_buffer.head? ≠ some 0) := by
  refine ⟨sums_up_iff name, sums_up_iff_of_fits, ?_⟩
  intro user_buffer h
  obtain ⟨hlen, hempty⟩ := bootkpi_writer_some h
  have hfits : name.bytes.length ≤ 2 ^ 31 := by
    simp only [MARKER_STRING_WIDTH] at hlen
    omega
  rw [sums_up_iff_of_fits hfits, ne_eq, hempty, not_or]

/-- A string with zeros around it. -/
def CString.alone (t : Text) (h : 0 ∉ t) : CString where
  mem i := if 0 ≤ i then t.getD i.toNat 0 else 0
  bytes := t
  no_nul := h
  stored i hi := by simp
  ends := by simp [List.getD_eq_getElem?_getD]

/-- The user writes "ab". -/
theorem a_short_name_is_summed_up : SumsUp (.alone [97, 98] (by decide)) :=
  ((names_are_summed_up_iff (.alone [97, 98] (by decide))).2.2 [97, 98] (by decide)).mpr (by decide)

/-- The user writes a single 0: the function reads in front of the string. -/
theorem the_empty_name_is_not_summed_up :
    bootkpi_writer [0] = some [] ∧ ∀ name : CString, name.bytes = [] → ¬ SumsUp name := by
  refine ⟨by decide, ?_⟩
  rintro name hempty ⟨turns, l, hl, hin, _⟩
  have hfirst := hin _ (charsum_loop_first hl)
  rw [hempty, List.length_nil] at hfirst
  omega

end boot_marker.marker_charsum
