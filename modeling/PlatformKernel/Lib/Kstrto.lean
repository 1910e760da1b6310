-- The functions of the kernel that read a number from a text: kstrtoull, and
-- those that take a smaller number. The whole text must be the number, with an
-- optional plus sign before it and an optional newline behind it.
import PlatformKernel.Lib.Numerals

namespace numerals

/-- The two errors of the functions. -/
inductive KstrtoErr
  | EINVAL
  | ERANGE
  deriving DecidableEq, Repr

def newline : UInt8 := 10

/-- A text that starts with `0x` and a hexadecimal digit. -/
def has_hex_prefix : Text → Bool
  | 48 :: x :: d :: _ => (x == 120 || x == 88) && (base_digit 16 d).isSome
  | _ => false

/-- The base of the numeral and the text that is left: base 0 asks for that of the prefix. -/
def fixup_radix (base : Nat) (t : Text) : Nat × Text :=
  let base :=
    if base = 0 then
      (if has_hex_prefix t then 16 else if t.head? = some 48 then 8 else 10) else base
  if base = 16 ∧ t.head? = some 48 ∧ (t[1]? = some 120 ∨ t[1]? = some 88) then (16, t.drop 2)
  else (base, t)

/-- The part of kstrtoull behind the sign. -/
def kstrtoull_core (base : Nat) (t : Text) : Except KstrtoErr Nat :=
  let (base, t) := fixup_radix base t
  let (n, rest) := parse_digits base t 0
  if 2 ^ 64 ≤ n then .error .ERANGE
  else if rest.length = t.length then .error .EINVAL
  else if rest = [] ∨ rest = [newline] then .ok n
  else .error .EINVAL

def kstrtoull (base : Nat) (t : Text) : Except KstrtoErr Nat :=
  match t with
  | 43 :: t => kstrtoull_core base t
  | t => kstrtoull_core base t

/-- `kstrtou32`. -/
def kstrtou32 (base : Nat) (t : Text) : Except KstrtoErr Nat :=
  match kstrtoull base t with
  | .error e => .error e
  | .ok n => if 2 ^ 32 ≤ n then .error .ERANGE else .ok n

/-! ## The numeral of a number -/

theorem decimal_head (n : Nat) : ∃ d < 10, ∃ t, decimal n = digit_char d :: t := by
  rcases h : decimal n with _ | ⟨c, t⟩
  · exact absurd h (decimal_ne_nil n)
  · obtain ⟨d, hd, rfl⟩ := mem_decimal (h ▸ List.mem_cons_self)
    exact ⟨d, hd, t, rfl⟩

/-- The character of a digit is none of the signs and letters of a numeral. -/
theorem digit_char_ne {d : Nat} (h : d < 10) {c : UInt8} (hc : c.toNat < 48 ∨ 57 < c.toNat) :
    digit_char d ≠ c := by
  rintro rfl
  rw [digit_char_toNat h] at hc
  omega

/-- A numeral with more than one digit does not start with 0. -/
theorem decimal_head_ne_zero {n : Nat} (h : n ≠ 0) : (decimal n).head? ≠ some 48 := by
  rw [decimal, if_neg h, List.head?_reverse, List.getLast?_map]
  have hnil : Nat.digits 10 n ≠ [] := Nat.digits_ne_nil_iff_ne_zero.mpr h
  rw [List.getLast?_eq_some_getLast hnil, Option.map_some]
  have hlast := Nat.getLast_digit_ne_zero 10 h
  have hlt : (Nat.digits 10 n).getLast hnil < 10 :=
    Nat.digits_lt_base (by decide) (List.getLast_mem hnil)
  intro he
  have hval := congrArg UInt8.toNat (Option.some.inj he)
  rw [digit_char_toNat hlt] at hval
  exact hlast (by simpa using hval)

/-- The numeral has no prefix of another base. -/
theorem fixup_radix_decimal {base n : Nat} (hb : base = 0 ∨ base = 10) (t : Text)
    (ht : t = [] ∨ t = [newline]) : (fixup_radix base (decimal n ++ t)) =
      (if base = 0 ∧ n = 0 then 8 else 10, decimal n ++ t) := by
  by_cases hn : n = 0
  · subst hn
    rcases hb with rfl | rfl <;> rcases ht with rfl | rfl <;> decide
  · have hhead : (decimal n ++ t).head? ≠ some 48 := by
      rw [List.head?_append_of_ne_nil _ (decimal_ne_nil n)]
      exact decimal_head_ne_zero hn
    have hhex : has_hex_prefix (decimal n ++ t) = false := by
      unfold has_hex_prefix
      split
      · rename_i h
        rw [h] at hhead
        exact absurd rfl hhead
      · rfl
    have hbase : (if base = 0 then
        (if has_hex_prefix (decimal n ++ t) then 16
          else if (decimal n ++ t).head? = some 48 then 8 else 10) else base) = 10 := by
      rcases hb with rfl | rfl
      · rw [if_pos rfl, hhex, if_neg Bool.false_ne_true, if_neg hhead]
      · rfl
    simp only [fixup_radix, hbase]
    rw [if_neg (by simp), if_neg (by simp [hn])]

/-- The decimal numeral of a number is read as the number when that is below 2^64, with or without
a newline behind it. -/
theorem kstrtoull_decimal {base n : Nat} (hb : base = 0 ∨ base = 10) {t : Text}
    (ht : t = [] ∨ t = [newline]) :
    kstrtoull base (decimal n ++ t) = if 2 ^ 64 ≤ n then .error .ERANGE else .ok n := by
  obtain ⟨d, hd, u, hu⟩ := decimal_head n
  have hcore : kstrtoull base (decimal n ++ t) = kstrtoull_core base (decimal n ++ t) := by
    unfold kstrtoull
    split
    · rename_i h
      rw [hu, List.cons_append] at h
      exact absurd (List.cons.inj h).1 (digit_char_ne hd (Or.inl (by decide)))
    · rfl
  rw [hcore, kstrtoull_core, fixup_radix_decimal hb t ht]
  have hparse : parse_digits (if base = 0 ∧ n = 0 then 8 else 10) (decimal n ++ t) 0 = (n, t) := by
    split
    · rename_i h
      rw [h.2]
      rcases ht with rfl | rfl <;> decide
    · rw [parse_digits_decimal]
      rcases ht with rfl | rfl
      · rfl
      · rw [parse_digits, show base_digit 10 newline = none from by decide]
  simp only [hparse]
  rw [if_neg (show t.length ≠ (decimal n ++ t).length by simp [decimal_ne_nil]), if_pos ht]

/-- The same for a number of 32 bits. -/
theorem kstrtou32_decimal {base n : Nat} (hb : base = 0 ∨ base = 10) {t : Text}
    (ht : t = [] ∨ t = [newline]) :
    kstrtou32 base (decimal n ++ t) = if 2 ^ 32 ≤ n then .error .ERANGE else .ok n := by
  rw [kstrtou32, kstrtoull_decimal hb ht]
  by_cases h : 2 ^ 64 ≤ n
  · rw [if_pos h, if_pos (by omega)]
  · rw [if_neg h]

end numerals
