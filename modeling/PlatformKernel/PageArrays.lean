-- The array of pages behind a buffer of the virtio driver. vfastrpc_alloc_pages asks for blocks as
-- large as it can use, and gives up an order for good when it fails. `order_mask` has all bits
-- below its highest one, whatever fails, and this carries the bounds and the end of both loops.
import Mathlib.Data.Nat.Bitwise
import Mathlib.Data.List.Perm.Basic

namespace virtual_fastrpc.page_arrays

/-- The number of a page frame. -/
abbrev Page := Nat

def U32 : Nat := 2 ^ 32

/-- A call of alloc_pages_node, and its answer: the first page of a block. -/
structure Call where
  noretry : Bool
  order : Nat
  page : Option Page
  deriving DecidableEq, Repr

/-- The allocator, which may answer by all that was asked before. -/
abbrev Allocator := List Call → Bool → Nat → Option Page

/-- `struct page **pages`, and the places written in it. -/
structure Pages where
  entries : List (Option Page)
  stores : List Nat
  deriving DecidableEq, Repr

def Pages.put (a : Pages) (i : Nat) (page : Page) : Pages :=
  ⟨a.entries.set i (some page), a.stores ++ [i]⟩

/-- `kvzalloc(count * sizeof(*pages))`, when it has the memory. -/
def kvzalloc (count : Nat) : Pages := ⟨List.replicate count none, []⟩

/-- What vfastrpc_alloc_pages returns, with the pages it freed and whether it freed the array. -/
structure Result where
  ret : Option (List (Option Page))
  stores : List Nat
  calls : List Call
  freed : List (Option Page)
  kvfreed : Bool
  deriving DecidableEq, Repr

/-- The pages are freed from the last to the first. -/
def vfastrpc_free_pages (pages : List (Option Page)) (count : Nat) : List (Option Page) :=
  (pages.take count).reverse

/-- The number of the highest bit. -/
def fls (n : Nat) : Nat := n.log2

/-- `order_mask &= ~order_size`: the complement has 32 bits. -/
def without (order_mask order_size : Nat) : Nat := order_mask &&& (U32 - 1 - order_size)

/-- `(2U << n) - 1`, in 32 bits: a shift by more than 30 leaves no bit. -/
def mask (n : Nat) : Nat := ((2 <<< n) % U32 + (U32 - 1)) % U32

/-- The loop over the orders: the page and the order it ends with, and what is left of the mask. -/
def try_orders (alloc_pages_node : Allocator) :
    Nat → Nat → List Call → Option (Option (Page × Nat) × Nat × List Call)
  | 0, _, _ => none
  | fuel + 1, order_mask, calls =>
    if order_mask = 0 then some (none, order_mask, calls)
    else
      let order := fls order_mask
      let order_size := 1 <<< order
      let noretry := decide (order_size < order_mask)
      match alloc_pages_node calls noretry order with
      | none =>
        try_orders alloc_pages_node fuel (without order_mask order_size)
          (calls ++ [⟨noretry, order, none⟩])
      | some page => some (some (page, order), order_mask, calls ++ [⟨noretry, order, some page⟩])

/-- `while (order_size--) pages[i++] = page++`. -/
def put_block : Nat → Page → Nat → Pages → Pages
  | 0, _, _, a => a
  | n + 1, page, i, a => put_block n (page + 1) (i + 1) (a.put i page)

def alloc_loop (alloc_pages_node : Allocator) :
    Nat → Nat → Nat → Nat → Pages → List Call → Option Result
  | 0, _, _, _, _, _ => none
  | fuel + 1, count, order_mask, i, pages, calls =>
    if count = 0 then some ⟨some pages.entries, pages.stores, calls, [], false⟩
    else
      match try_orders alloc_pages_node fuel (order_mask &&& mask (fls count)) calls with
      | none => none
      | some (none, _, calls) =>
        some ⟨none, pages.stores, calls, vfastrpc_free_pages pages.entries i, true⟩
      | some (some (page, order), order_mask, calls) =>
        let order_size := 1 <<< order
        alloc_loop alloc_pages_node fuel (count - order_size) order_mask (i + order_size)
          (put_block order_size page i pages) calls

def vfastrpc_alloc_pages (MAX_ORDER : Nat) (memory : Bool) (alloc_pages_node : Allocator)
    (count fuel : Nat) : Option Result :=
  if memory then alloc_loop alloc_pages_node fuel count (mask MAX_ORDER) 0 (kvzalloc count) []
  else some ⟨none, [], [], [], false⟩

/-- The pages of a block, one by one, as split_page leaves them. -/
def Call.pages (c : Call) : List Page :=
  match c.page with
  | none => []
  | some page => List.range' page (2 ^ c.order)

/-- The single pages of the blocks that were obtained. -/
def obtained (calls : List Call) : List Page := calls.flatMap Call.pages

/-! ## The mask of the orders -/

theorem mask_eq (n : Nat) : mask n = 2 ^ min (n + 1) 32 - 1 := by
  have hshift : 2 <<< n = 2 ^ (n + 1) := by rw [Nat.shiftLeft_eq, Nat.pow_succ']
  rw [mask, hshift]
  rcases Nat.lt_or_ge n 31 with hn | hn
  · have hlt : 2 ^ (n + 1) < U32 := Nat.pow_lt_pow_right (by decide) (by omega)
    have hpos : 0 < 2 ^ (n + 1) := Nat.two_pow_pos _
    rw [Nat.mod_eq_of_lt hlt, Nat.min_eq_left (by omega)]
    unfold U32 at hlt ⊢
    omega
  · have hdvd : U32 ∣ 2 ^ (n + 1) := pow_dvd_pow 2 (by omega)
    rw [Nat.mod_eq_zero_of_dvd hdvd, Nat.min_eq_right (by omega)]
    rfl

theorem and_mask (a b : Nat) : (2 ^ a - 1) &&& (2 ^ b - 1) = 2 ^ min a b - 1 := by
  apply Nat.eq_of_testBit_eq
  intro i
  rw [Nat.testBit_and, Nat.testBit_two_pow_sub_one, Nat.testBit_two_pow_sub_one,
    Nat.testBit_two_pow_sub_one, ← Bool.decide_and]
  exact decide_eq_decide.mpr Nat.lt_min.symm

theorem fls_ones (n : Nat) : fls (2 ^ (n + 1) - 1) = n := by
  have hpos : 0 < 2 ^ n := Nat.two_pow_pos n
  rw [fls, Nat.log2_eq_iff (by rw [Nat.pow_succ]; omega), Nat.pow_succ]
  omega

/-- The order that fails is the highest one, so the mask keeps its shape. -/
theorem without_ones {n : Nat} (hn : n < 32) :
    without (2 ^ (n + 1) - 1) (1 <<< n) = 2 ^ n - 1 := by
  apply Nat.eq_of_testBit_eq
  intro i
  have hlt : 2 ^ n < 2 ^ 32 := Nat.pow_lt_pow_right (by decide) hn
  have hcomplement : U32 - 1 - 1 <<< n = 2 ^ 32 - (2 ^ n + 1) := by
    rw [Nat.one_shiftLeft, U32]
    omega
  rw [without, hcomplement, Nat.testBit_and, Nat.testBit_two_pow_sub_succ hlt,
    Nat.testBit_two_pow_sub_one, Nat.testBit_two_pow_sub_one, Nat.testBit_two_pow]
  by_cases hi : i < n
  · simp [hi, show i < n + 1 by omega, show i < 32 by omega, show n ≠ i by omega]
  · by_cases he : n = i
    · simp [he]
    · simp [hi, show ¬ i < n + 1 by omega]

/-! ## What a loop leaves -/

theorem obtained_append (calls new : List Call) :
    obtained (calls ++ new) = obtained calls ++ obtained new := List.flatMap_append

/-- The loop over the orders ends, with a block of an order of the mask or with an empty mask. -/
theorem try_orders_ones (alloc_pages_node : Allocator) {n : Nat} (hn : n ≤ 32) (calls : List Call) :
    ∃ page order_mask new,
      (∀ fuel, n < fuel →
        try_orders alloc_pages_node fuel (2 ^ n - 1) calls =
          some (page, order_mask, calls ++ new)) ∧
      match page with
      | none => obtained new = []
      | some (page, order) =>
        order < n ∧ order_mask = 2 ^ (order + 1) - 1 ∧
          obtained new = List.range' page (2 ^ order) := by
  induction n generalizing calls with
  | zero =>
    refine ⟨none, 0, [], fun fuel hfuel => ?_, rfl⟩
    obtain ⟨fuel, rfl⟩ := Nat.exists_eq_succ_of_ne_zero (Nat.ne_of_gt hfuel)
    rw [try_orders, if_pos (by decide), List.append_nil]
    rfl
  | succ n ih =>
    have hne : 2 ^ (n + 1) - 1 ≠ 0 := by
      have hle : 2 ^ 1 ≤ 2 ^ (n + 1) := Nat.pow_le_pow_right (by decide) (by omega)
      omega
    obtain ⟨noretry, hturn⟩ : ∃ noretry, ∀ fuel,
        try_orders alloc_pages_node (fuel + 1) (2 ^ (n + 1) - 1) calls =
          match alloc_pages_node calls noretry n with
          | none => try_orders alloc_pages_node fuel (2 ^ n - 1) (calls ++ [⟨noretry, n, none⟩])
          | some page =>
            some (some (page, n), 2 ^ (n + 1) - 1, calls ++ [⟨noretry, n, some page⟩]) := by
      refine ⟨decide (1 <<< n < 2 ^ (n + 1) - 1), fun fuel => ?_⟩
      rw [try_orders, if_neg hne]
      simp only [fls_ones, without_ones hn]
    rcases ha : alloc_pages_node calls noretry n with _ | page
    · -- the order fails, and the loop goes on below it
      obtain ⟨page, order_mask, new, hrun, hspec⟩ := ih (by omega) (calls ++ [⟨noretry, n, none⟩])
      refine ⟨page, order_mask, ⟨noretry, n, none⟩ :: new, fun fuel hfuel => ?_, ?_⟩
      · obtain ⟨fuel, rfl⟩ := Nat.exists_eq_succ_of_ne_zero (Nat.ne_zero_of_lt hfuel)
        rw [hturn, ha]
        simp only
        rw [hrun fuel (by omega), List.append_assoc]
        rfl
      · rcases page with _ | ⟨page, order⟩
        · exact hspec
        · exact ⟨Nat.lt_succ_of_lt hspec.1, hspec.2.1, hspec.2.2⟩
    · refine ⟨some (page, n), 2 ^ (n + 1) - 1, [⟨noretry, n, some page⟩], fun fuel hfuel => ?_,
        Nat.lt_succ_self n, rfl, ?_⟩
      · obtain ⟨fuel, rfl⟩ := Nat.exists_eq_succ_of_ne_zero (Nat.ne_zero_of_lt hfuel)
        rw [hturn, ha]
      · simp [obtained, Call.pages]

/-- The array holds a list of pages from its start on, and was written at their places only. -/
structure Filled (a : Pages) (count : Nat) (pages : List Page) : Prop where
  entries : a.entries = pages.map some ++ List.replicate count none
  stores : a.stores = List.range pages.length

theorem Filled.put {a : Pages} {count : Nat} {pages : List Page} (h : Filled a (count + 1) pages)
    (page : Page) : Filled (a.put pages.length page) count (pages ++ [page]) where
  entries := by
    rw [Pages.put, h.entries, List.replicate_succ,
      List.set_append_right _ _ (by rw [List.length_map])]
    simp
  stores := by
    rw [Pages.put, h.stores, List.length_append, List.length_singleton, List.range_succ]

theorem Filled.put_block {count : Nat} (n : Nat) {a : Pages} {pages : List Page} (page : Page)
    (h : Filled a (count + n) pages) :
    Filled (put_block n page pages.length a) count (pages ++ List.range' page n) := by
  induction n generalizing a pages page with
  | zero => simpa [page_arrays.put_block] using h
  | succ n ih =>
    have hput := ih (page + 1) (h.put page)
    rw [List.length_append, List.length_singleton, List.append_assoc] at hput
    exact hput

/-- What a call of vfastrpc_alloc_pages does: it fills the array with the pages it obtained, each at
one place of it, or it frees them and the array. -/
def Exact (count : Nat) (r : Result) : Prop :=
  match r.ret with
  | some entries =>
    entries = (obtained r.calls).map some ∧ entries.length = count ∧
      r.stores = List.range count ∧ r.freed = [] ∧ r.kvfreed = false
  | none =>
    r.freed.Perm ((obtained r.calls).map some) ∧ (∀ i ∈ r.stores, i < count) ∧
      (r.kvfreed = true ∨ r.calls = [])

/-- When no order succeeds any more, all that was obtained is freed. -/
theorem alloc_fails {total count : Nat} {a : Pages} {calls new : List Call}
    (h : Filled a count (obtained calls)) (hnew : obtained new = [])
    (htotal : (obtained calls).length + count = total) :
    Exact total ⟨none, a.stores, calls ++ new,
      vfastrpc_free_pages a.entries (obtained calls).length, true⟩ := by
  refine ⟨?_, ?_, Or.inl rfl⟩
  · have htake : a.entries.take (obtained calls).length = (obtained calls).map some := by
      rw [h.entries, List.take_left' (List.length_map _)]
    dsimp only
    rw [vfastrpc_free_pages, htake, obtained_append, hnew, List.append_nil]
    exact List.reverse_perm _
  · intro i hi
    dsimp only at hi
    rw [h.stores, List.mem_range] at hi
    omega

/-- The loop ends, from any mask that has all the bits below its highest one. -/
theorem alloc_loop_exact (alloc_pages_node : Allocator) {total count n : Nat} {a : Pages}
    {calls : List Call} (hn : 0 < n) (hn32 : n ≤ 32)
    (htotal : (obtained calls).length + count = total) (h : Filled a count (obtained calls)) :
    ∃ r, (∀ fuel, count + 33 ≤ fuel →
        alloc_loop alloc_pages_node fuel count (2 ^ n - 1)
          (obtained calls).length a calls = some r) ∧
      Exact total r := by
  induction count using Nat.strong_induction_on generalizing n a calls with
  | _ count ih =>
    by_cases hcount : count = 0
    · subst hcount
      refine ⟨⟨some a.entries, a.stores, calls, [], false⟩, fun fuel hfuel => ?_, ?_⟩
      · obtain ⟨fuel, rfl⟩ := Nat.exists_eq_add_of_le hfuel
        rw [show 0 + 33 + fuel = 32 + fuel + 1 by omega, alloc_loop, if_pos rfl]
      · have hall : a.entries = (obtained calls).map some := by
          rw [h.entries, List.replicate_zero, List.append_nil]
        have hlength : (obtained calls).length = total := by omega
        refine ⟨hall, ?_, ?_, rfl, rfl⟩
        · rw [hall, List.length_map, hlength]
        · rw [h.stores, hlength]
    · -- the orders of this turn are those of the mask that fit what is left
      have hones : (2 ^ n - 1) &&& mask (fls count) = 2 ^ min n (min (fls count + 1) 32) - 1 := by
        rw [mask_eq, and_mask]
      obtain ⟨page, order_mask, new, hrun, hspec⟩ := @try_orders_ones alloc_pages_node
        (min n (min (fls count + 1) 32)) (by omega) calls
      have hturn : ∀ fuel, count + 33 ≤ fuel + 1 →
          try_orders alloc_pages_node fuel ((2 ^ n - 1) &&& mask (fls count)) calls =
            some (page, order_mask, calls ++ new) := by
        intro fuel hfuel
        rw [hones]
        exact hrun fuel (by omega)
      rcases page with _ | ⟨page, order⟩
      · refine ⟨_, fun fuel hfuel => ?_, alloc_fails h hspec htotal⟩
        obtain ⟨fuel, rfl⟩ := Nat.exists_eq_succ_of_ne_zero (show fuel ≠ 0 by omega)
        rw [alloc_loop, if_neg hcount, hturn fuel hfuel]
      · obtain ⟨horder, rfl, hpages⟩ := hspec
        have hsize : 2 ^ order ≤ count :=
          (Nat.pow_le_pow_right (by decide) (show order ≤ fls count by omega)).trans
            (Nat.log2_self_le hcount)
        have hpos : 0 < 2 ^ order := Nat.two_pow_pos order
        have hobtained :
          obtained (calls ++ new) = obtained calls ++ List.range' page (2 ^ order) := by
          rw [obtained_append, hpages]
        have hlength : (obtained (calls ++ new)).length = (obtained calls).length + 2 ^ order := by
          rw [hobtained, List.length_append, List.length_range']
        have hfilled : Filled (put_block (2 ^ order) page (obtained calls).length a)
            (count - 2 ^ order) (obtained (calls ++ new)) := by
          rw [hobtained]
          refine Filled.put_block (2 ^ order) page ?_
          rwa [Nat.sub_add_cancel hsize]
        obtain ⟨r, hr, hexact⟩ := ih (count - 2 ^ order) (by omega) (Nat.succ_pos order)
          (by omega) (by omega) hfilled
        refine ⟨r, fun fuel hfuel => ?_, hexact⟩
        obtain ⟨fuel, rfl⟩ := Nat.exists_eq_succ_of_ne_zero (show fuel ≠ 0 by omega)
        rw [alloc_loop, if_neg hcount, hturn fuel hfuel]
        simp only [Nat.one_shiftLeft]
        rw [← hlength]
        exact hr fuel (by omega)

theorem kvzalloc_filled (count : Nat) : Filled (kvzalloc count) count (obtained []) := ⟨rfl, rfl⟩

/-- A call ends for any answers of the allocator, and is exact. -/
theorem alloc_pages_is_exact (MAX_ORDER count : Nat) (memory : Bool)
    (alloc_pages_node : Allocator) :
    ∃ r, (∀ fuel, count + 33 ≤ fuel →
        vfastrpc_alloc_pages MAX_ORDER memory alloc_pages_node count fuel = some r) ∧
      Exact count r := by
  cases memory with
  | false => exact
    ⟨⟨none, [], [], [], false⟩, fun _ _ => rfl, List.Perm.refl _, by simp, Or.inr rfl⟩
  | true =>
    have hmask := mask_eq MAX_ORDER
    obtain ⟨r, hr, hexact⟩ := @alloc_loop_exact alloc_pages_node count count
      (min (MAX_ORDER + 1) 32)
      (kvzalloc count) [] (by omega) (by omega) (Nat.zero_add count) (kvzalloc_filled count)
    refine ⟨r, fun fuel hfuel => ?_, hexact⟩
    rw [vfastrpc_alloc_pages, if_pos rfl, hmask]
    exact hr fuel hfuel

/-- Of three pages, a block of two is obtained, and freed when the last page is not. -/
example : vfastrpc_alloc_pages 10 true
    (fun calls _ _ => if calls = [] then some 100 else none) 3 36 =
    some ⟨none, [0, 1], [⟨true, 1, some 100⟩, ⟨false, 0, none⟩], [some 101, some 100], true⟩ := by
  decide

end virtual_fastrpc.page_arrays
