-- Pages of a memory that are mapped in a row. What is written through the mapping is read back
-- through it, and the pages hold it one after the other.
import PlatformKernel.Lib.Bytes
import Mathlib.Data.List.Nodup

namespace vmap

open bytes

variable {β : Type} {size : Nat}

/-- The address that the mapping has at an offset. -/
def place (size : Nat) (pages : List Nat) (o : Nat) : Nat :=
  pages.getD (o / size) 0 * size + o % size

/-- The memory as the mapping shows it. -/
def view (size : Nat) (pages : List Nat) (m : Nat → β) : Nat → β := fun o => m (place size pages o)

/-- The memory after a write through the mapping. -/
def put (size : Nat) (pages : List Nat) (m : Nat → β) (off : Nat) (bs : List β) :
    Nat → β := fun x =>
  if x / size ∈ pages then
    store (view size pages m) off bs (pages.idxOf (x / size) * size + x % size)
  else m x

theorem view_put {pages : List Nat} (hsize : 0 < size) (hpages : pages.Nodup) (m : Nat → β)
    (off : Nat) (bs : List β) {o : Nat} (ho : o < pages.length * size) :
    view size pages (put size pages m off bs) o = store (view size pages m) off bs o := by
  have hlt : o / size < pages.length := Nat.div_lt_of_lt_mul (by rwa [Nat.mul_comm])
  have hget : pages.getD (o / size) 0 = pages[o / size] := by simp [hlt]
  have hframe : place size pages o / size = pages[o / size] := by
    rw [place, hget, Nat.mul_comm, Nat.mul_add_div hsize, Nat.div_eq_of_lt (Nat.mod_lt _ hsize),
      Nat.add_zero]
  have hrest : place size pages o % size = o % size := by
    rw [place, Nat.mul_add_mod_self_right, Nat.mod_mod]
  rw [view, put, hframe, hrest, if_pos (List.getElem_mem hlt), hpages.idxOf_getElem _ hlt,
    Nat.mul_comm, Nat.div_add_mod]

/-- The addresses of the pages, in order, are the places of the mapping. -/
theorem flatMap_pages (hsize : 0 < size) (pages : List Nat) :
    pages.flatMap (fun p => List.range' (p * size) size) =
      (List.range (pages.length * size)).map (place size pages) := by
  induction pages with
  | nil => simp
  | cons p pages ih =>
    have hfirst :
      (List.range size).map (place size (p :: pages)) = List.range' (p * size) size := by
      rw [List.range'_eq_map_range]
      refine List.map_congr_left fun o ho => ?_
      have hlt : o < size := List.mem_range.mp ho
      simp [place, Nat.div_eq_of_lt hlt, Nat.mod_eq_of_lt hlt]
    have hrest : ∀ o, place size (p :: pages) (size + o) = place size pages o := by
      intro o
      rw [place, place, Nat.add_div_left _ hsize, Nat.add_mod_left, List.getD_cons_succ]
    rw [List.flatMap_cons, ih, List.length_cons, Nat.succ_mul, Nat.add_comm, List.range_add,
      List.map_append, hfirst, List.map_map]
    refine congrArg _ (List.map_congr_left fun o _ => ?_)
    exact (hrest o).symm

end vmap
