-- The cap of the DDR frequency (drivers/aop-set-ddr.c): a number written to the
-- sysfs file goes to the controller as a text, in a buffer of the driver whose
-- length the controller wants to be a multiple of four.
import PlatformKernel.Lib.Kstrto

namespace aop_set_ddr

open numerals

/-- Imposed by the remote. -/
def MAX_MSG_SIZE : Nat := 96

/-! ## The driver -/

/-- The packet points to the buffer, so it is only a size. -/
structure set_ddr_freq_data where
  size : Nat
  buf : List UInt8

/-- The static packet, and the messages that the mailbox has been given. -/
structure Device where
  data_pkt : set_ddr_freq_data
  mailbox : List Text

/-- `%d`: the value is an unsigned int, and it is printed as a signed one. -/
def signed_decimal (v : Int) : Text :=
  if v < 0 then 45 :: decimal v.natAbs else decimal v.natAbs

def snprintf (buf : List UInt8) (size : Nat) (t : Text) : List UInt8 :=
  let t := t.take (size - 1)
  t ++ 0 :: buf.drop (t.length + 1)

def strlen (buf : List UInt8) : Nat := (buf.takeWhile (· ≠ 0)).length

/-- The text of the message. -/
def message (freq : BitVec 32) : Text :=
  text "\x7bclass:ddr, res:capped, val: " ++ signed_decimal freq.toInt ++ text "\x7d"

/-- The number that a program has written. -/
def frequency (buf : Text) : Option (BitVec 32) :=
  match kstrtou32 0 buf with
  | .ok n => some (BitVec.ofNat 32 n)
  | .error _ => none

/-- `(n + 0x3) & ~0x3`: the last two bits are cleared. -/
def align4 (n : Nat) : Nat := (n + 3) / 4 * 4

/-- The program gets the length that it has written, or -EINVAL. A message that the mailbox does
not take is reported in the log only. -/
def set_ddr_capped_freq_store (s : Device) (buf : Text) (len : Nat) : Device × Int :=
  match frequency buf with
  | none => (s, -22)
  | some freq =>
    let data_buf := snprintf (List.replicate (MAX_MSG_SIZE + 1) 0) MAX_MSG_SIZE (message freq)
    let data_pkt : set_ddr_freq_data := ⟨align4 (strlen data_buf), data_buf⟩
    (⟨data_pkt, s.mailbox ++ [data_pkt.buf.take data_pkt.size]⟩, len)

/-- The writes of the programs, one behind the other. -/
def stores (s : Device) (bufs : List (Text × Nat)) : Device :=
  bufs.foldl (fun s b => (set_ddr_capped_freq_store s b.1 b.2).1) s

/-! ## The reading of a text

The controller is not part of the driver. This is what the text of a message says. -/

/-- The end of a message: the brace, and zeros. -/
def ends (t : Text) : Bool :=
  match t with
  | 125 :: pad => pad.all (· == 0)
  | _ => false

/-- A number with its sign. -/
def read_signed (t : Text) : Int × Text :=
  match t with
  | 45 :: t => (-((parse_digits 10 t 0).1 : Int), (parse_digits 10 t 0).2)
  | t => (((parse_digits 10 t 0).1 : Int), (parse_digits 10 t 0).2)

/-- What a message asks for. -/
def read_val (msg : Text) : Option Int :=
  let key := text "\x7bclass:ddr, res:capped, val: "
  if key <+: msg ∧ ends (read_signed (msg.drop key.length)).2 then
    some (read_signed (msg.drop key.length)).1
  else none

/-! ## The text of a message -/

theorem align4_ge (n : Nat) : n ≤ align4 n ∧ align4 n < n + 4 := by
  unfold align4
  omega

theorem digit_char_ne_zero {d : Nat} (h : d < 10) : digit_char d ≠ 0 := by
  apply digit_char_ne h
  exact Or.inl (by decide)

theorem signed_decimal_ne_zero (v : Int) : ∀ c ∈ signed_decimal v, c ≠ 0 := by
  have hdec : ∀ c ∈ decimal v.natAbs, c ≠ 0 := by
    intro c hc
    obtain ⟨d, hd, rfl⟩ := mem_decimal hc
    exact digit_char_ne_zero hd
  intro c hc
  unfold signed_decimal at hc
  split at hc
  · rcases List.mem_cons.mp hc with rfl | hc
    · decide
    · exact hdec c hc
  · exact hdec c hc

theorem message_ne_zero (freq : BitVec 32) : ∀ c ∈ message freq, c ≠ 0 := by
  intro c hc
  simp only [message, List.mem_append] at hc
  rcases hc with (hc | hc) | hc
  · exact (by decide +kernel : ∀ c ∈ text "\x7bclass:ddr, res:capped, val: ", c ≠ 0) c hc
  · exact signed_decimal_ne_zero _ c hc
  · exact (by decide +kernel : ∀ c ∈ text "\x7d", c ≠ 0) c hc

theorem length_signed_decimal_le (freq : BitVec 32) : (signed_decimal freq.toInt).length ≤ 11 := by
  have hlt : freq.toInt.natAbs < 10 ^ 10 := by
    have h1 := BitVec.le_toInt freq
    have h2 := BitVec.toInt_lt (x := freq)
    omega
  have hlen := length_decimal_le (k := 10) (by decide) hlt
  unfold signed_decimal
  split
  · rw [List.length_cons]
    omega
  · omega

/-- The text is far from the end of the buffer. -/
theorem length_message_le (freq : BitVec 32) : (message freq).length ≤ 41 := by
  have h := length_signed_decimal_le freq
  have h1 : (text "\x7bclass:ddr, res:capped, val: ").length = 29 := by decide +kernel
  have h2 : (text "\x7d").length = 1 := by decide
  rw [message, List.length_append, List.length_append, h1, h2]
  omega

/-- The buffer holds the text and zeros behind it. -/
theorem snprintf_message (freq : BitVec 32) :
    snprintf (List.replicate (MAX_MSG_SIZE + 1) 0) MAX_MSG_SIZE (message freq) =
      message freq ++ List.replicate (MAX_MSG_SIZE + 1 - (message freq).length) 0 := by
  have h := length_message_le freq
  have htake : (message freq).take (MAX_MSG_SIZE - 1) = message freq := by
    apply List.take_of_length_le
    rw [MAX_MSG_SIZE]
    omega
  simp only [snprintf, htake, List.drop_replicate]
  rw [← List.replicate_succ]
  congr 2
  rw [MAX_MSG_SIZE]
  omega

theorem strlen_message (freq : BitVec 32) (k : Nat) :
    strlen (message freq ++ List.replicate k 0) = (message freq).length := by
  unfold strlen
  rw [List.takeWhile_append_of_pos]
  · have hzeros : (List.replicate k (0 : UInt8)).takeWhile (· ≠ 0) = [] := by
      cases k <;> simp [List.replicate_succ]
    rw [hzeros, List.append_nil]
  · intro c hc
    simpa using message_ne_zero freq c hc

/-- The message that the mailbox gets: the text, and fewer than four zeros. -/
def sent (freq : BitVec 32) : Text :=
  message freq ++ List.replicate (align4 (message freq).length - (message freq).length) 0

theorem store_mailbox (s : Device) (buf : Text) (len : Nat) :
    (set_ddr_capped_freq_store s buf len).1.mailbox =
      s.mailbox ++ ((frequency buf).map sent).toList := by
  unfold set_ddr_capped_freq_store
  cases hf : frequency buf with
  | none => simp
  | some freq =>
    have hlen := length_message_le freq
    obtain ⟨hge, hlt⟩ := align4_ge (message freq).length
    simp only [snprintf_message, strlen_message, Option.map_some, Option.toList_some]
    congr 2
    rw [List.take_append, List.take_of_length_le hge, List.take_replicate, sent]
    congr 2
    rw [MAX_MSG_SIZE]
    omega

/-! ## What the texts say -/

theorem read_digits (n : Nat) (t : Text) :
    parse_digits 10 (decimal n ++ 125 :: t) 0 = (n, 125 :: t) := by
  rw [parse_digits_decimal, parse_digits]
  simp [show base_digit 10 125 = none from by decide]

theorem read_signed_decimal (v : Int) (t : Text) :
    read_signed (signed_decimal v ++ 125 :: t) = (v, 125 :: t) := by
  unfold signed_decimal
  split
  · rename_i hneg
    rw [List.cons_append]
    simp only [read_signed, read_digits, Prod.mk.injEq, and_true]
    omega
  · rename_i hpos
    obtain ⟨d, hd, u, hu⟩ := decimal_head v.natAbs
    have hsign : digit_char d ≠ 45 := digit_char_ne hd (Or.inl (by decide))
    have hread := read_digits v.natAbs t
    rw [hu, List.cons_append] at hread ⊢
    unfold read_signed
    split
    · rename_i h
      exact absurd (List.cons.inj h).1 hsign
    · rw [hread]
      simp only [Prod.mk.injEq, and_true]
      omega

/-- The text says the number that was printed. -/
theorem read_val_sent (freq : BitVec 32) : read_val (sent freq) = some freq.toInt := by
  have hclose : text "\x7d" = [125] := by decide
  have hsplit : sent freq = text "\x7bclass:ddr, res:capped, val: " ++ (signed_decimal freq.toInt ++
      125 :: List.replicate (align4 (message freq).length - (message freq).length) 0) := by
    simp [sent, message, hclose]
  rw [hsplit, read_val]
  simp only [List.drop_left, read_signed_decimal, List.prefix_append, true_and]
  rw [if_pos]
  simp [ends]

theorem length_sent (freq : BitVec 32) :
    4 ∣ (sent freq).length ∧ (sent freq).length ≤ MAX_MSG_SIZE := by
  have hlen := length_message_le freq
  obtain ⟨hge, hlt⟩ := align4_ge (message freq).length
  have heq : (sent freq).length = align4 (message freq).length := by
    rw [sent, List.length_append, List.length_replicate]
    omega
  rw [heq, MAX_MSG_SIZE]
  exact ⟨⟨_, Nat.mul_comm _ _⟩, by omega⟩

/-- A numeral of a program, with or without a newline. -/
def numeral (n : Nat) (nl : Bool) : Text := decimal n ++ if nl then [newline] else []

/-- A numeral is taken when its number has 32 bits. -/
theorem frequency_numeral (n : Nat) (nl : Bool) :
    frequency (numeral n nl) = if 2 ^ 32 ≤ n then none else some (BitVec.ofNat 32 n) := by
  have hread := @kstrtou32_decimal 0 n (Or.inl rfl) (if nl then [newline] else [])
    (by cases nl <;> simp)
  rw [frequency, numeral, hread]
  by_cases h : 2 ^ 32 ≤ n
  · rw [if_pos h, if_pos h]
  · rw [if_neg h, if_neg h]

theorem toInt_ofNat_eq_iff {n : Nat} (hn : n < 2 ^ 32) :
    (BitVec.ofNat 32 n).toInt = (n : Int) ↔ n < 2 ^ 31 := by
  rw [BitVec.toInt_eq_toNat_cond, BitVec.toNat_ofNat, Nat.mod_eq_of_lt hn]
  split <;> omega

theorem stores_mailbox (s : Device) (bufs : List (Text × Nat)) :
    (stores s bufs).mailbox = s.mailbox ++ (bufs.filterMap (fun b => frequency b.1)).map sent := by
  induction bufs generalizing s with
  | nil => simp [stores]
  | cons b bufs ih =>
    have hstep := store_mailbox s b.1 b.2
    simp only [stores, List.foldl_cons] at ih ⊢
    rw [ih, hstep, List.filterMap_cons]
    cases frequency b.1 <;> simp

/-- Whatever is written, the controller gets one message for each write whose text is a number of
32 bits, in their order and nothing of the others; each message is whole, fits the limit of the
controller and is a multiple of four bytes long. The number in it is the one that was written
when that is below 2^31, and a negative one from there on. -/
theorem the_controller_reads_what_was_written (s : Device) (bufs : List (Text × Nat)) :
    ∃ msgs, (stores s bufs).mailbox = s.mailbox ++ msgs ∧
      msgs.map read_val = (bufs.filterMap (fun b => frequency b.1)).map (fun f => some f.toInt) ∧
      (∀ m ∈ msgs, 4 ∣ m.length ∧ m.length ≤ MAX_MSG_SIZE) ∧
      ∀ n nl, ((frequency (numeral n nl)).isSome ↔ n < 2 ^ 32) ∧
        ((frequency (numeral n nl)).map BitVec.toInt = some (n : Int) ↔ n < 2 ^ 31) := by
  refine ⟨_, stores_mailbox s bufs, ?_, ?_, ?_⟩
  · rw [List.map_map]
    apply List.map_congr_left
    intro f _
    exact read_val_sent f
  · intro m hm
    obtain ⟨f, _, rfl⟩ := List.mem_map.mp hm
    exact length_sent f
  · intro n nl
    rw [frequency_numeral]
    by_cases h : n < 2 ^ 32
    · rw [if_neg (Nat.not_le.mpr h)]
      refine ⟨by simpa using h, ?_⟩
      rw [Option.map_some, Option.some.injEq]
      exact toInt_ofNat_eq_iff h
    · rw [if_pos (Nat.not_lt.mp h)]
      refine ⟨by simpa using h, ?_⟩
      simp only [Option.map_none, reduceCtorEq, false_iff]
      omega

example : (stores ⟨⟨0, []⟩, []⟩
    [(text "0x10\n", 5), (text "ddr", 3), (text "4294967295", 10)]).mailbox.map
    read_val = [some 16, some (-1)] := by decide +kernel

end aop_set_ddr
