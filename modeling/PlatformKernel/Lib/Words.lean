-- Words in a memory of bytes, with the lowest byte first. A cell is a place of
-- a fixed width: a write to one is read back, and leaves all cells that are
-- apart from it as they were.
import PlatformKernel.Lib.Bytes
import Mathlib.Data.Nat.ModEq

namespace words

open bytes

/-- The `n` lowest bytes of `v`. -/
def toLE : Nat → Nat → List (BitVec 8)
  | 0, _ => []
  | n + 1, v => BitVec.ofNat 8 v :: toLE n (v / 256)

def fromLE : List (BitVec 8) → Nat
  | [] => 0
  | b :: bs => b.toNat + 256 * fromLE bs

@[simp] theorem length_toLE (n v : Nat) : (toLE n v).length = n := by
  induction n generalizing v with
  | zero => rfl
  | succ n ih => simp [toLE, ih]

theorem fromLE_toLE (n v : Nat) : fromLE (toLE n v) = v % 256 ^ n := by
  induction n generalizing v with
  | zero => simp [toLE, fromLE, Nat.mod_one]
  | succ n ih =>
    have hbyte : (BitVec.ofNat 8 v).toNat = v % 256 := BitVec.toNat_ofNat v 8
    rw [toLE, fromLE, ih, hbyte, pow_succ', Nat.mod_mul]

/-! ## Cells -/

structure Cell where
  addr : Nat
  width : Nat

def Cell.get (f : Cell) (m : Nat → BitVec 8) : Nat := fromLE (load m f.addr f.width)

def Cell.put (f : Cell) (m : Nat → BitVec 8) (v : Nat) : Nat → BitVec 8 :=
  store m f.addr (toLE f.width v)

/-- The `n` bytes at `a` are no bytes of the cell. -/
def Cell.Apart (f : Cell) (a n : Nat) : Prop := a + n ≤ f.addr ∨ f.addr + f.width ≤ a

/-- A write is no write to these bytes. -/
theorem store_eq_of_apart {β : Type} {m : Nat → β} {a x : Nat} {bs : List β}
    (h : x < a ∨ a + bs.length ≤ x) : store m a bs x = m x :=
  store_of_not_covered (by omega)

theorem load_store_same {β : Type} (m : Nat → β) (a : Nat) (bs : List β) :
    load (store m a bs) a bs.length = bs := by
  apply List.ext_getElem
  · simp [load]
  · intro j h1 h2
    simp [load, store, h2]

theorem Cell.get_congr {f : Cell} {m m' : Nat → BitVec 8}
    (h : ∀ x, f.addr ≤ x → x < f.addr + f.width → m x = m' x) : f.get m = f.get m' := by
  unfold Cell.get
  rw [load_eq_iff.mpr (fun j hj => h (f.addr + j) (by omega) (by omega))]

/-- A cell of zeros is zero. -/
theorem Cell.get_eq_zero {f : Cell} {m : Nat → BitVec 8}
    (h : ∀ x, f.addr ≤ x → x < f.addr + f.width → m x = 0) : f.get m = 0 := by
  have hzeros : ∀ n, fromLE (List.replicate n 0) = 0 := by
    intro n
    induction n with
    | zero => rfl
    | succ n ih =>
      rw [List.replicate_succ, fromLE, ih]
      rfl
  have hload : load m f.addr f.width = List.replicate f.width 0 := by
    apply List.ext_getElem
    · simp [load]
    · intro j h1 _
      simp only [load, List.length_map, List.length_range] at h1
      simp [load, h (f.addr + j) (by omega) (by omega)]
  rw [Cell.get, hload, hzeros]

/-- A cell in a copy of the memory. -/
theorem Cell.get_store_load {m : Nat → BitVec 8} {a b n k w : Nat} (h : k + w ≤ n) :
    (Cell.mk (b + k) w).get (store m b (load m a n)) = (Cell.mk (a + k) w).get m := by
  have hload : load (store m b (load m a n)) (b + k) w = load m (a + k) w := by
    apply List.ext_getElem
    · simp [load]
    · intro j h1 _
      simp only [load, List.length_map, List.length_range] at h1
      have hlt : k + j < n := by omega
      simp [load, store, Nat.add_assoc, hlt]
  unfold Cell.get
  rw [hload]

theorem Cell.get_put (f : Cell) (m : Nat → BitVec 8) {v : Nat} (h : v < 256 ^ f.width) :
    f.get (f.put m v) = v := by
  have hload := load_store_same m f.addr (toLE f.width v)
  rw [length_toLE] at hload
  rw [Cell.get, Cell.put, hload, fromLE_toLE, Nat.mod_eq_of_lt h]

theorem Cell.get_store_of_apart {f : Cell} {a : Nat} {bs : List (BitVec 8)}
    (h : f.Apart a bs.length) (m : Nat → BitVec 8) : f.get (store m a bs) = f.get m := by
  apply Cell.get_congr
  intro x hlo hhi
  apply store_eq_of_apart
  unfold Cell.Apart at h
  omega

theorem Cell.get_put_of_apart {f g : Cell} (h : f.Apart g.addr g.width) (m : Nat → BitVec 8)
    (v : Nat) : f.get (g.put m v) = f.get m := by
  apply Cell.get_store_of_apart
  rw [length_toLE]
  exact h

end words
