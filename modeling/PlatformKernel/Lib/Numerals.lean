-- Numbers as text: the decimal numeral of a number, and the reading of a
-- numeral in a base, which ends at the first character that is no digit. A text
-- is the bytes of a C string before the one that ends it.
import Mathlib.Data.Nat.Digits.Defs
import Mathlib.Data.Nat.Digits.Lemmas

namespace numerals

abbrev Text := List UInt8

/-- A string literal. -/
def text (s : String) : Text := s.toList.map (fun c => UInt8.ofNat c.toNat)

/-- The character of a digit below 10. -/
def digit_char (d : Nat) : UInt8 := UInt8.ofNat (48 + d)

/-- The numeral of `%u`. -/
def decimal (n : Nat) : Text :=
  if n = 0 then [48] else ((Nat.digits 10 n).map digit_char).reverse

/-- The value of a character as a digit of any base up to 16. -/
def digit_value (c : UInt8) : Option Nat :=
  if 48 ≤ c ∧ c ≤ 57 then some (c.toNat - 48)
  else if 97 ≤ c ∧ c ≤ 102 then some (c.toNat - 87)
  else if 65 ≤ c ∧ c ≤ 70 then some (c.toNat - 55)
  else none

/-- The value of a character as a digit of the base. -/
def base_digit (base : Nat) (c : UInt8) : Option Nat := (digit_value c).filter (fun d => d < base)

/-- The number that the leading digits name, behind the number `acc`, and the text behind them. -/
def parse_digits (base : Nat) : Text → Nat → Nat × Text
  | [], acc => (acc, [])
  | c :: t, acc =>
    match base_digit base c with
    | some d => parse_digits base t (acc * base + d)
    | none => (acc, c :: t)

/-! ## The digits of a numeral -/

theorem digit_char_toNat {d : Nat} (h : d < 10) : (digit_char d).toNat = 48 + d := by
  rw [digit_char, UInt8.toNat_ofNat', Nat.mod_eq_of_lt (by omega)]

theorem digit_value_digit_char {d : Nat} (h : d < 10) : digit_value (digit_char d) = some d := by
  have hn := digit_char_toNat h
  have hlo : 48 ≤ digit_char d := by
    rw [UInt8.le_iff_toNat_le, hn]
    exact Nat.le_add_right 48 d
  have hhi : digit_char d ≤ 57 := by
    rw [UInt8.le_iff_toNat_le, hn]
    exact Nat.add_le_add_left (Nat.le_of_lt_succ h) 48
  rw [digit_value, if_pos ⟨hlo, hhi⟩, hn, Nat.add_sub_cancel_left]

theorem base_digit_digit_char {base d : Nat} (h : d < 10) (hb : d < base) :
    base_digit base (digit_char d) = some d := by
  simp [base_digit, digit_value_digit_char h, hb]

theorem mem_decimal {n : Nat} {c : UInt8} (h : c ∈ decimal n) : ∃ d < 10, c = digit_char d := by
  unfold decimal at h
  split at h
  · exact ⟨0, by decide, List.mem_singleton.mp h⟩
  · obtain ⟨d, hd, rfl⟩ := List.mem_map.mp (List.mem_reverse.mp h)
    exact ⟨d, Nat.digits_lt_base (by decide) hd, rfl⟩

theorem decimal_ne_nil (n : Nat) : decimal n ≠ [] := by
  unfold decimal
  split
  · exact List.cons_ne_nil _ _
  · rename_i h
    simp [Nat.digits_ne_nil_iff_ne_zero, h]

/-- The digits of a list, the largest first, make the number of their values. -/
theorem parse_digits_map (base : Nat) (ds : List Nat) (t : Text) (acc : Nat)
    (h : ∀ d ∈ ds, d < 10 ∧ d < base) :
    parse_digits base (ds.map digit_char ++ t) acc =
      parse_digits base t (ds.foldl (fun a d => a * base + d) acc) := by
  induction ds generalizing acc with
  | nil => rfl
  | cons d ds ih =>
    obtain ⟨h10, hb⟩ := h d List.mem_cons_self
    rw [List.map_cons, List.cons_append, parse_digits, base_digit_digit_char h10 hb,
      List.foldl_cons]
    exact ih (acc * base + d) (fun e he => h e (List.mem_cons_of_mem _ he))

theorem foldl_reverse_digits (base : Nat) (ds : List Nat) :
    ds.reverse.foldl (fun a d => a * base + d) 0 = Nat.ofDigits base ds := by
  induction ds with
  | nil => rfl
  | cons d ds ih =>
    rw [List.reverse_cons, List.foldl_append, ih, Nat.ofDigits_cons]
    simp [Nat.add_comm, Nat.mul_comm]

/-- The numeral of a number is read as the number. -/
theorem parse_digits_decimal (n : Nat) (t : Text) :
    parse_digits 10 (decimal n ++ t) 0 = parse_digits 10 t n := by
  unfold decimal
  split
  · rename_i h
    subst h
    rfl
  · rw [← List.map_reverse, parse_digits_map, foldl_reverse_digits, Nat.ofDigits_digits]
    intro d hd
    have := Nat.digits_lt_base (by decide) (List.mem_reverse.mp hd)
    exact ⟨this, this⟩

theorem length_decimal_le {n k : Nat} (hk : 0 < k) (h : n < 10 ^ k) : (decimal n).length ≤ k := by
  unfold decimal
  split
  · exact hk
  · rw [List.length_reverse, List.length_map]
    exact (Nat.digits_length_le_iff (by decide) n).mpr h

end numerals
