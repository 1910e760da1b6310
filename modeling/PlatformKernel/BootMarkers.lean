-- The boot markers (drivers/boot_marker.c): a list of named times, with a hash
-- table that finds them by name. A name is stored in MARKER_STRING_WIDTH bytes,
-- and looked up as the caller gives it.
import PlatformKernel.Lib.Keyed
import PlatformKernel.Lib.Numerals
import PlatformKernel.Lib.Runs
import Mathlib.Data.List.Infix

namespace boot_marker

open numerals

def MARKER_STRING_WIDTH : Nat := 40
def TS_WHOLE_NUM_WIDTH : Nat := 8
def TS_PRECISION_WIDTH : Nat := 3
def TIME_FIELD_MISC : Nat := 4
def TIME_FIELD_WIDTH : Nat := TS_WHOLE_NUM_WIDTH + TS_PRECISION_WIDTH + TIME_FIELD_MISC
def MARKER_TOTAL_LEN : Nat := MARKER_STRING_WIDTH + TIME_FIELD_WIDTH
def PAGE_SIZE : Nat := 4096
def MAX_NUM_MARKERS : Nat := PAGE_SIZE * 4 / MARKER_TOTAL_LEN

/-- A name that a caller gives: a string with at least one byte. -/
structure Name where
  bytes : Text
  nonempty : bytes ≠ []
  no_nul : 0 ∉ bytes

/-- `struct boot_marker`, with its address. -/
structure Marker where
  addr : Nat
  marker_name : Text
  timer_value : UInt64
  fits : marker_name.length < MARKER_STRING_WIDTH

/-- The markers, the hash table of their addresses, their number, and how often memory was
asked for: the memory of the `n`-th time has the address `n`. -/
structure State where
  boot_marker_list : List Marker
  marker_htable : Fin 32 → List Nat
  num_markers : Int
  allocs : Nat

/-- `struct boot_stats`: the times that the boot loader left. -/
structure boot_stats where
  bootloader_start : UInt32
  bootloader_end : UInt32
  bootloader_load_boot_start : UInt32
  bootloader_load_boot_end : UInt32
  bootloader_load_vendor_boot_start : UInt32
  bootloader_load_vendor_boot_end : UInt32
  bootloader_load_init_boot_start : UInt32
  bootloader_load_init_boot_end : UInt32

/-! ## Strings -/

/-- `strscpy` into `n` bytes, the last of which ends the string. -/
def strscpy (s : Text) (n : Nat) : Text := s.take (n - 1)

theorem strscpy_fits (s : Text) : (strscpy s MARKER_STRING_WIDTH).length < MARKER_STRING_WIDTH := by
  unfold strscpy
  rw [List.length_take]
  simp only [MARKER_STRING_WIDTH]
  omega

/-- Whether `strnstr` finds the second string in the first. -/
def strnstr : Text → Text → Bool
  | [], s => s.isPrefixOf []
  | c :: t, s => s.isPrefixOf (c :: t) || strnstr t s

/-- The loop of `calculate_marker_charsum`, with `len` bytes to go. -/
def charsum_loop (name : Text) : Nat → UInt32 → UInt32
  | 0, sum => sum
  | len + 1, sum => charsum_loop name len (sum + (name.getD len 0).toUInt32)

def calculate_marker_charsum (name : Text) : UInt32 := charsum_loop name name.length 0

def GOLDEN_RATIO_32 : UInt32 := 0x61C88647

/-- The bucket of a key: `hash_min` of a 32-bit key and 5 bits. -/
def hash_min (key : UInt32) : Fin 32 := Fin.ofNat 32 ((key * GOLDEN_RATIO_32) >>> 27).toNat

/-- The bucket of the markers with this name. -/
def bucket (name : Text) : Fin 32 := hash_min (calculate_marker_charsum name)

/-! ## The markers -/

def lookup (s : State) (a : Nat) : Option Marker := keyed.lookup Marker.addr s.boot_marker_list a

/-- `hash_add`: the new node is the first of its bucket. -/
def hash_add (s : State) (b : Fin 32) (a : Nat) : State :=
  { s with marker_htable := Function.update s.marker_htable b (a :: s.marker_htable b) }

/-- `hash_del`: the node leaves the bucket that it is in. -/
def hash_del (s : State) (a : Nat) : State :=
  { s with marker_htable := fun b => (s.marker_htable b).filter (fun x => x != a) }

/-- The body of the loops that free markers. -/
def free_marker (s : State) (m : Marker) : State :=
  { hash_del s m.addr with
    num_markers := s.num_markers - 1
    boot_marker_list := keyed.remove Marker.addr s.boot_marker_list m.addr }

/-- `list_for_each_entry_safe`, with the markers to come: those that meet the test are freed. -/
def free_loop (p : Marker → Bool) : List Marker → State → State
  | [], s => s
  | m :: l, s => free_loop p l (if p m then free_marker s m else s)

def destroy_marker_kernel (s : State) (name : Text) : State :=
  free_loop (fun m => strnstr m.marker_name name) s.boot_marker_list s

def boot_marker_cleanup (s : State) : State := free_loop (fun _ => true) s.boot_marker_list s

def find_entry (s : State) (name : Text) : Option Marker :=
  ((s.marker_htable (bucket name)).filterMap (lookup s)).find? (fun m => m.marker_name == name)

/-- The counter as `num_markers >= MAX_NUM_MARKERS` reads it: an `unsigned long`. -/
def counted (s : State) : Nat := (s.num_markers % 2 ^ 64).toNat

/-- The assignment to the time of a marker. -/
def set_timer_value (s : State) (m : Marker) (timer_value : UInt64) : State :=
  { s with
    boot_marker_list := keyed.update Marker.addr s.boot_marker_list m.addr
      (fun m => { m with timer_value := timer_value }) }

/-- The marker that a new name gets. -/
def new_marker (s : State) (name : Text) (timer_value : UInt64) : Marker :=
  ⟨s.allocs, strscpy name MARKER_STRING_WIDTH, timer_value, strscpy_fits name⟩

/-- The new marker comes to the end of the list and into the hash table. -/
def add_marker (s : State) (m : Marker) : State :=
  { hash_add s (bucket m.marker_name) m.addr with
    boot_marker_list := s.boot_marker_list ++ [m]
    num_markers := s.num_markers + 1
    allocs := s.allocs + 1 }

section

-- Whether memory is there the `n`-th time it is asked for, and the configuration.
variable (kmalloc : Nat → Bool) (CONFIG_HIBERNATION : Bool)

def _create_boot_marker (s : State) (name : Text) (timer_value : UInt64) : State :=
  if MAX_NUM_MARKERS ≤ counted s then s
  else match find_entry s name with
    | some m =>
      set_timer_value s m timer_value
    | none =>
      if kmalloc s.allocs then add_marker s (new_marker s name timer_value)
      else { s with allocs := s.allocs + 1 }

/-- One part of the boot, when the boot loader left its start. -/
def load_markers (start load_end time : Text) (ts1 ts2 : UInt32) : List (Text × UInt64) :=
  if ts1 = 0 then []
  else [(start, ts1.toUInt64), (load_end, ts2.toUInt64), (time, ts2.toUInt64 - ts1.toUInt64)]

/-- The markers that `set_bootloader_stats` creates between its first and its last. -/
def loads (b : boot_stats) (hibernation_restore : Bool) : List (Text × UInt64) :=
  if hibernation_restore then
    [(text "D - APPSBL Hibernation Image Load Start -", b.bootloader_load_boot_start.toUInt64),
      (text "D - APPSBL Hibernation Image Load End - ", b.bootloader_load_boot_end.toUInt64)]
  else
    load_markers (text "M - APPSBL Boot Load Start - ") (text "M - APPSBL Boot Load End - ")
      (text "D - APPSBL Boot Load Time - ") b.bootloader_load_boot_start b.bootloader_load_boot_end
    ++ load_markers (text "M - APPSBL Vendor Boot Load Start - ")
      (text "M - APPSBL Vendor Boot Load End - ") (text "D - APPSBL Vendor Boot Load Time - ")
      b.bootloader_load_vendor_boot_start b.bootloader_load_vendor_boot_end
    ++ load_markers (text "M - APPSBL Init Boot Load Start - ")
      (text "M - APPSBL Init Boot Load End - ") (text "D - APPSBL Init Load Time - ")
      b.bootloader_load_init_boot_start b.bootloader_load_init_boot_end

/-- Markers created one after the other. -/
def create_all (s : State) (l : List (Text × UInt64)) : State :=
  l.foldl (fun s x => _create_boot_marker kmalloc s x.1 x.2) s

def set_bootloader_stats (s : State) (stats : Option boot_stats) (hibernation_restore : Bool) :
    State :=
  match stats with
  | none => s
  | some b =>
    create_all kmalloc s
      ([(text "M - APPSBL Start - ", b.bootloader_start.toUInt64)] ++ loads b hibernation_restore
        ++ [(text "M - APPSBL End - ", b.bootloader_end.toUInt64)])

/-- The name that starts the markers again after a hibernation. -/
def restarts (name : Text) : Bool := CONFIG_HIBERNATION && name == text "M - Image Kernel Start"

/-- The first part of `place_marker`. -/
def place_restart (s : State) (name : Text) (stats : Option boot_stats) : State :=
  if restarts CONFIG_HIBERNATION name then
    set_bootloader_stats kmalloc (boot_marker_cleanup s) stats true
  else s

/-- `place_marker`, with the ticks that the timer gives and the stats of the boot loader. -/
def place_marker (s : State) (name : Text) (ticks : UInt64) (stats : Option boot_stats) : State :=
  _create_boot_marker kmalloc (place_restart kmalloc CONFIG_HIBERNATION s name stats) name ticks

/-- The state that `boot_marker_init` leaves. -/
def boot_marker_init (stats : Option boot_stats) : State :=
  set_bootloader_stats kmalloc ⟨[], fun _ => [], 0, 0⟩ stats false

inductive Op
  | place_marker (name : Name) (ticks : UInt64) (stats : Option boot_stats)
  | destroy_marker_kernel (name : Name)
  | boot_marker_cleanup

def step (s : State) : Op → Option State
  | .place_marker name ticks stats =>
    some (place_marker kmalloc CONFIG_HIBERNATION s name.bytes ticks stats)
  | .destroy_marker_kernel name => some (destroy_marker_kernel s name.bytes)
  | .boot_marker_cleanup => some (boot_marker_cleanup s)

end

/-! ## The two indexes and the counter -/

/-- The hash table holds the markers of the list, each under its name, and the counter counts
them. -/
structure Indexed (s : State) : Prop where
  unique : keyed.Unique Marker.addr s.boot_marker_list
  fresh : ∀ m ∈ s.boot_marker_list, m.addr < s.allocs
  hashed : ∀ b a, a ∈ s.marker_htable b ↔
    ∃ m ∈ s.boot_marker_list, m.addr = a ∧ bucket m.marker_name = b
  count : s.num_markers = s.boot_marker_list.length
  room : s.boot_marker_list.length ≤ MAX_NUM_MARKERS

/-- No two markers have one name. -/
def Distinct (s : State) : Prop := (s.boot_marker_list.map Marker.marker_name).Nodup

/-- The list holds a marker of this name. -/
def Stored (s : State) (name : Text) : Prop := ∃ m ∈ s.boot_marker_list, m.marker_name = name

theorem Indexed.counted_eq {s : State} (h : Indexed s) : counted s = s.boot_marker_list.length := by
  have hroom : s.boot_marker_list.length ≤ 297 := h.room
  unfold counted
  rw [h.count]
  omega

theorem find_entry_some {s : State} {name : Text} {m : Marker}
    (hf : find_entry s name = some m) : m ∈ s.boot_marker_list ∧ m.marker_name = name := by
  have hname := List.find?_some hf
  obtain ⟨a, _, ha⟩ := List.mem_filterMap.mp (List.mem_of_find?_eq_some hf)
  exact ⟨keyed.mem_of_lookup ha, by simpa using hname⟩

/-- The lookup misses no marker: one with the name is in the bucket of the name. -/
theorem Indexed.find_entry_none {s : State} (h : Indexed s) {name : Text}
    (hf : find_entry s name = none) : ¬ Stored s name := by
  rintro ⟨m, hm, rfl⟩
  have hin : m.addr ∈ s.marker_htable (bucket m.marker_name) :=
    (h.hashed _ _).mpr ⟨m, hm, rfl, rfl⟩
  have hmem : m ∈ (s.marker_htable (bucket m.marker_name)).filterMap (lookup s) :=
    List.mem_filterMap.mpr ⟨m.addr, hin, keyed.lookup_of_mem h.unique hm⟩
  have := List.find?_eq_none.mp hf m hmem
  simp at this

/-! ## Freeing markers -/

theorem length_remove {l : List Marker} (hu : keyed.Unique Marker.addr l) {m : Marker}
    (hm : m ∈ l) : ((keyed.remove Marker.addr l m.addr).length : Int) = l.length - 1 := by
  have hweight := keyed.weight_remove hu (fun _ => 1) hm rfl
  simp [keyed.weight] at hweight
  omega

theorem free_marker_indexed {s : State} (h : Indexed s) {m : Marker}
    (hm : m ∈ s.boot_marker_list) : Indexed (free_marker s m) := by
  have hlen := length_remove h.unique hm
  refine ⟨h.unique.remove, ?_, ?_, ?_, ?_⟩
  · intro x hx
    exact h.fresh x (keyed.mem_remove.mp hx).1
  · intro b a
    show a ∈ (s.marker_htable b).filter _ ↔ _
    simp only [List.mem_filter, h.hashed, bne_iff_ne]
    constructor
    · rintro ⟨⟨x, hx, rfl, hb⟩, hne⟩
      exact ⟨x, keyed.mem_remove.mpr ⟨hx, hne⟩, rfl, hb⟩
    · rintro ⟨x, hx, rfl, hb⟩
      obtain ⟨hx, hne⟩ := keyed.mem_remove.mp hx
      exact ⟨⟨x, hx, rfl, hb⟩, hne⟩
  · show s.num_markers - 1 = ((keyed.remove Marker.addr s.boot_marker_list m.addr).length : Int)
    rw [hlen, h.count]
  · have := h.room
    show (keyed.remove Marker.addr s.boot_marker_list m.addr).length ≤ _
    omega

/-- The loop frees the markers of its list that meet the test, and no others. -/
theorem free_loop_list (p : Marker → Bool) (l : List Marker) (s : State) :
    (free_loop p l s).boot_marker_list =
      s.boot_marker_list.filter (fun x => !(l.filter p).any (fun m => x.addr == m.addr)) := by
  induction l generalizing s with
  | nil => simp [free_loop]
  | cons m l ih =>
    rw [free_loop, ih]
    rcases hp : p m with _ | _
    · simp [hp]
    · simp only [if_true, free_marker, keyed.remove, List.filter_filter]
      refine List.filter_congr (fun x _ => ?_)
      simp [hp, bne, Bool.and_comm]

theorem free_loop_indexed {p : Marker → Bool} {l : List Marker} {s : State} (h : Indexed s)
    (hu : keyed.Unique Marker.addr l) (hl : ∀ m ∈ l, m ∈ s.boot_marker_list) :
    Indexed (free_loop p l s) := by
  induction l generalizing s with
  | nil => exact h
  | cons m l ih =>
    have hm := hl m List.mem_cons_self
    have hrest : ∀ x ∈ l, x ∈ s.boot_marker_list := fun x hx => hl x (List.mem_cons_of_mem _ hx)
    rw [free_loop]
    split
    · refine ih (free_marker_indexed h hm) hu.tail (fun x hx => ?_)
      exact keyed.mem_remove.mpr ⟨hrest x hx, hu.head x hx⟩
    · exact ih h hu.tail hrest

theorem free_loop_distinct {p : Marker → Bool} {l : List Marker} {s : State} (h : Distinct s) :
    Distinct (free_loop p l s) := by
  unfold Distinct
  rw [free_loop_list]
  exact (List.filter_sublist.map _).nodup h

theorem boot_marker_cleanup_list (s : State) : (boot_marker_cleanup s).boot_marker_list = [] := by
  unfold boot_marker_cleanup
  rw [free_loop_list, List.filter_eq_nil_iff]
  intro m hm
  simp only [List.filter_true, Bool.not_eq_true, Bool.not_eq_false', List.any_eq_true, beq_iff_eq]
  exact ⟨m, hm, rfl⟩

/-! ## Creating a marker -/

/-- The name as a marker stores it. -/
def stored_name (name : Text) : Text := strscpy name MARKER_STRING_WIDTH

theorem stored_name_of_short {name : Text} (h : name.length < MARKER_STRING_WIDTH) :
    stored_name name = name := by
  apply List.take_of_length_le
  simp only [MARKER_STRING_WIDTH] at h ⊢
  omega

/-- A name that is found is short. -/
theorem short_of_stored {s : State} {name : Text} (h : Stored s name) :
    name.length < MARKER_STRING_WIDTH := by
  obtain ⟨m, _, rfl⟩ := h
  exact m.fits

/-- A marker of this name has this time. -/
def Current (s : State) (name : Text) (ticks : UInt64) : Prop :=
  ∃ m ∈ s.boot_marker_list, m.marker_name = name ∧ m.timer_value = ticks

section

variable {kmalloc : Nat → Bool} {CONFIG_HIBERNATION : Bool}

/-- All that `_create_boot_marker` can do. -/
theorem create_cases (kmalloc : Nat → Bool) {s : State} (h : Indexed s) (name : Text)
    (ticks : UInt64) :
    (MAX_NUM_MARKERS ≤ counted s ∧ _create_boot_marker kmalloc s name ticks = s) ∨
    (∃ m ∈ s.boot_marker_list, m.marker_name = name ∧
      _create_boot_marker kmalloc s name ticks = set_timer_value s m ticks) ∨
    (counted s < MAX_NUM_MARKERS ∧ ¬ Stored s name ∧ kmalloc s.allocs = true ∧
      _create_boot_marker kmalloc s name ticks = add_marker s (new_marker s name ticks)) ∨
    (¬ Stored s name ∧ kmalloc s.allocs = false ∧
      _create_boot_marker kmalloc s name ticks = { s with allocs := s.allocs + 1 }) := by
  unfold _create_boot_marker
  split
  · exact Or.inl ⟨‹_›, rfl⟩
  · rename_i hroom
    split
    · rename_i m hf
      obtain ⟨hm, hname⟩ := find_entry_some hf
      exact Or.inr (Or.inl ⟨m, hm, hname, rfl⟩)
    · rename_i hf
      have hnew := h.find_entry_none hf
      split
      · exact Or.inr (Or.inr (Or.inl ⟨by omega, hnew, ‹_›, rfl⟩))
      · exact Or.inr (Or.inr (Or.inr ⟨hnew, Bool.eq_false_iff.mpr ‹_›, rfl⟩))

theorem map_set_timer_value {β : Type} {f : Marker → β} (s : State) (m : Marker) (ticks : UInt64)
    (hf : ∀ x : Marker, f { x with timer_value := ticks } = f x) :
    (set_timer_value s m ticks).boot_marker_list.map f = s.boot_marker_list.map f := by
  simp only [set_timer_value, keyed.update, List.map_map]
  refine List.map_congr_left (fun x _ => ?_)
  simp only [Function.comp_apply]
  split
  · exact hf x
  · rfl

/-- A new time changes nothing that the indexes look at. -/
theorem set_timer_value_indexed {s : State} (h : Indexed s) (m : Marker) (ticks : UInt64) :
    Indexed (set_timer_value s m ticks) := by
  have hpairs := map_set_timer_value (f := fun x => (x.addr, x.marker_name)) s m ticks
    (fun _ => rfl)
  have hmem : ∀ a n, (∃ x ∈ (set_timer_value s m ticks).boot_marker_list,
      x.addr = a ∧ x.marker_name = n) ↔
      ∃ x ∈ s.boot_marker_list, x.addr = a ∧ x.marker_name = n := by
    intro a n
    have := congrArg (fun l => (a, n) ∈ l) hpairs
    simpa [List.mem_map, Prod.ext_iff] using this
  have hlen : (set_timer_value s m ticks).boot_marker_list.length = s.boot_marker_list.length := by
    simp [set_timer_value, keyed.update]
  refine ⟨h.unique.update (fun _ => rfl), ?_, ?_, ?_, ?_⟩
  · intro x hx
    obtain ⟨y, hy, hya, _⟩ := (hmem x.addr x.marker_name).mp ⟨x, hx, rfl, rfl⟩
    exact hya ▸ h.fresh y hy
  · intro b a
    show a ∈ s.marker_htable b ↔ _
    rw [h.hashed]
    constructor
    · rintro ⟨x, hx, hxa, hb⟩
      obtain ⟨y, hy, hya, hyn⟩ := (hmem a x.marker_name).mpr ⟨x, hx, hxa, rfl⟩
      exact ⟨y, hy, hya, hyn ▸ hb⟩
    · rintro ⟨x, hx, hxa, hb⟩
      obtain ⟨y, hy, hya, hyn⟩ := (hmem a x.marker_name).mp ⟨x, hx, hxa, rfl⟩
      exact ⟨y, hy, hya, hyn ▸ hb⟩
  · rw [hlen]
    exact h.count
  · rw [hlen]
    exact h.room

theorem add_marker_indexed {s : State} (h : Indexed s) (hroom : counted s < MAX_NUM_MARKERS)
    {m : Marker} (hm : m.addr = s.allocs) : Indexed (add_marker s m) := by
  have hfresh : ∀ x ∈ s.boot_marker_list, x.addr ≠ m.addr := by
    intro x hx
    have := h.fresh x hx
    omega
  refine ⟨?_, ?_, ?_, ?_, ?_⟩
  · show ((s.boot_marker_list ++ [m]).map Marker.addr).Nodup
    rw [List.map_append, List.nodup_append]
    refine ⟨h.unique, by simp, ?_⟩
    intro a ha b hb
    obtain ⟨x, hx, rfl⟩ := List.mem_map.mp ha
    simp only [List.map_cons, List.map_nil, List.mem_singleton] at hb
    exact hb ▸ hfresh x hx
  · intro x hx
    show x.addr < s.allocs + 1
    rcases List.mem_append.mp hx with hx | hx
    · have := h.fresh x hx
      omega
    · rw [List.mem_singleton.mp hx, hm]
      omega
  · intro b a
    have hsplit : (∃ x ∈ s.boot_marker_list ++ [m], x.addr = a ∧ bucket x.marker_name = b) ↔
        (∃ x ∈ s.boot_marker_list, x.addr = a ∧ bucket x.marker_name = b) ∨
          (m.addr = a ∧ bucket m.marker_name = b) := by
      simp [or_and_right, exists_or]
    show a ∈ Function.update s.marker_htable _ _ b ↔ _
    rw [show (add_marker s m).boot_marker_list = s.boot_marker_list ++ [m] from rfl, hsplit,
      ← h.hashed]
    by_cases hb : b = bucket m.marker_name
    · subst hb
      simp [or_comm, eq_comm]
    · simp [Function.update_of_ne hb, Ne.symm hb]
  · show s.num_markers + 1 = ((s.boot_marker_list ++ [m]).length : Int)
    simp [h.count]
  · show (s.boot_marker_list ++ [m]).length ≤ _
    rw [h.counted_eq] at hroom
    simp only [List.length_append, List.length_singleton]
    omega

theorem create_indexed {s : State} (h : Indexed s) (name : Text) (ticks : UInt64) :
    Indexed (_create_boot_marker kmalloc s name ticks) := by
  rcases create_cases kmalloc h name ticks with
    ⟨_, he⟩ | ⟨m, _, _, he⟩ | ⟨hroom, _, _, he⟩ | ⟨_, _, he⟩
  · rw [he]
    exact h
  · rw [he]
    exact set_timer_value_indexed h m ticks
  · rw [he]
    exact add_marker_indexed h hroom rfl
  · rw [he]
    exact ⟨h.unique, fun m hm => Nat.lt_succ_of_lt (h.fresh m hm), h.hashed, h.count, h.room⟩

/-- The names after a creation: those before it, and the new one as it is stored. -/
theorem create_stored {s : State} (h : Indexed s) {name n : Text} {ticks : UInt64}
    (hn : Stored (_create_boot_marker kmalloc s name ticks) n) :
    Stored s n ∨ n = stored_name name := by
  rcases create_cases kmalloc h name ticks with
    ⟨_, he⟩ | ⟨m, _, _, he⟩ | ⟨_, _, _, he⟩ | ⟨_, _, he⟩
  · rw [he] at hn
    exact Or.inl hn
  · rw [he] at hn
    have hnames := map_set_timer_value (f := Marker.marker_name) s m ticks (fun _ => rfl)
    obtain ⟨x, hx, rfl⟩ := hn
    have hmem := List.mem_map_of_mem (f := Marker.marker_name) hx
    rw [hnames] at hmem
    exact Or.inl (List.mem_map.mp hmem)
  · rw [he] at hn
    obtain ⟨x, hx, rfl⟩ := hn
    rcases List.mem_append.mp hx with hx | hx
    · exact Or.inl ⟨x, hx, rfl⟩
    · rw [List.mem_singleton.mp hx]
      exact Or.inr rfl
  · rw [he] at hn
    exact Or.inl hn

theorem create_distinct {s : State} (h : Indexed s) (hd : Distinct s) {name : Text}
    (hshort : name.length < MARKER_STRING_WIDTH ∨ ¬ Stored s (stored_name name)) (ticks : UInt64) :
    Distinct (_create_boot_marker kmalloc s name ticks) := by
  rcases create_cases kmalloc h name ticks with
    ⟨_, he⟩ | ⟨m, _, _, he⟩ | ⟨_, hnew, _, he⟩ | ⟨_, _, he⟩
  · rw [he]
    exact hd
  · rw [he]
    unfold Distinct
    rw [map_set_timer_value s m ticks (fun _ => rfl)]
    exact hd
  · have hnew' : ¬ Stored s (stored_name name) := by
      rcases hshort with hshort | hnot
      · rw [stored_name_of_short hshort]
        exact hnew
      · exact hnot
    rw [he]
    show ((s.boot_marker_list ++ [new_marker s name ticks]).map Marker.marker_name).Nodup
    rw [List.map_append, List.nodup_append]
    refine ⟨hd, by simp, ?_⟩
    intro a ha b hb hab
    simp only [List.map_cons, List.map_nil, List.mem_singleton] at hb
    subst hb hab
    exact hnew' (List.mem_map.mp ha)
  · rw [he]
    exact hd

/-- A creation gives the name its new time: when there is a marker of the name and the list is
not full, or else when there is none and the memory for it. -/
theorem create_current {s : State} (h : Indexed s) {name : Text} (ticks : UInt64)
    (hshort : name.length < MARKER_STRING_WIDTH ∨ ¬ Stored s (stored_name name))
    (hroom : counted s < MAX_NUM_MARKERS)
    (hmem : kmalloc s.allocs = true ∨ Stored s (stored_name name)) :
    Current (_create_boot_marker kmalloc s name ticks) (stored_name name) ticks := by
  rcases create_cases kmalloc h name ticks with
    ⟨hfull, _⟩ | ⟨m, hm, hname, he⟩ | ⟨_, _, _, he⟩ | ⟨hnew, hnone, _⟩
  · omega
  · rw [he, stored_name_of_short (short_of_stored ⟨m, hm, hname⟩)]
    refine ⟨{ m with timer_value := ticks }, ?_, hname, rfl⟩
    exact keyed.mem_update.mpr (Or.inr ⟨m, hm, rfl, rfl⟩)
  · rw [he]
    exact ⟨new_marker s name ticks, List.mem_append_right _ (List.mem_singleton.mpr rfl), rfl, rfl⟩
  · rcases hmem with hmem | hstored
    · simp [hmem] at hnone
    · rcases hshort with hshort | hnot
      · rw [stored_name_of_short hshort] at hstored
        exact absurd hstored hnew
      · exact absurd hstored hnot

/-! ## The markers of the boot loader -/

theorem create_length (kmalloc : Nat → Bool) {s : State} (h : Indexed s) (name : Text)
    (ticks : UInt64) :
    (_create_boot_marker kmalloc s name ticks).boot_marker_list.length ≤
      s.boot_marker_list.length + 1 := by
  rcases create_cases kmalloc h name ticks with
    ⟨_, he⟩ | ⟨m, _, _, he⟩ | ⟨_, _, _, he⟩ | ⟨_, _, he⟩
  · rw [he]
    omega
  · rw [he]
    simp [set_timer_value, keyed.update]
  · rw [he]
    simp [add_marker]
  · rw [he]
    simp

/-- Names of which none is cut to one that is stored, or that comes before it. -/
def Apart (s : State) (l : List (Text × UInt64)) : Prop :=
  (∀ x ∈ l, x.1.length < MARKER_STRING_WIDTH ∨ ¬ Stored s (stored_name x.1)) ∧
  l.Pairwise (fun x y => y.1.length < MARKER_STRING_WIDTH ∨ stored_name y.1 ≠ stored_name x.1)

theorem create_all_keeps (kmalloc : Nat → Bool) {l : List (Text × UInt64)} {s : State}
    (h : Indexed s) (hd : Distinct s)
    (hl : Apart s l) : Indexed (create_all kmalloc s l) ∧ Distinct (create_all kmalloc s l) ∧
      (create_all kmalloc s l).boot_marker_list.length ≤ s.boot_marker_list.length + l.length := by
  induction l generalizing s with
  | nil => exact ⟨h, hd, Nat.le_refl _⟩
  | cons x l ih =>
    obtain ⟨hfresh, hpairs⟩ := hl
    obtain ⟨hx, hpairs⟩ := List.pairwise_cons.mp hpairs
    have hrest : Apart (_create_boot_marker kmalloc s x.1 x.2) l := by
      refine ⟨fun y hy => ?_, hpairs⟩
      rcases hfresh y (List.mem_cons_of_mem _ hy) with hshort | hnot
      · exact Or.inl hshort
      · rcases hx y hy with hshort | hne
        · exact Or.inl hshort
        · refine Or.inr (fun hs => ?_)
          rcases create_stored h hs with hs | hs
          · exact hnot hs
          · exact hne hs
    obtain ⟨hi, hd', hlen⟩ := ih (create_indexed h x.1 x.2)
      (create_distinct h hd (hfresh x List.mem_cons_self) x.2) hrest
    have := create_length kmalloc h x.1 x.2
    refine ⟨hi, hd', hlen.trans ?_⟩
    simp only [List.length_cons]
    omega

theorem apart_of_short {s : State} {l : List (Text × UInt64)}
    (h : ∀ x ∈ l, x.1.length < MARKER_STRING_WIDTH) : Apart s l :=
  ⟨fun x hx => Or.inl (h x hx), List.pairwise_of_forall_mem_list (fun _ _ y hy => Or.inl (h y hy))⟩

theorem load_markers_short {a b c : Text} (ha : a.length < MARKER_STRING_WIDTH)
    (hb : b.length < MARKER_STRING_WIDTH) (hc : c.length < MARKER_STRING_WIDTH) (ts1 ts2 : UInt32) :
    ∀ x ∈ load_markers a b c ts1 ts2, x.1.length < MARKER_STRING_WIDTH := by
  intro x hx
  unfold load_markers at hx
  split at hx
  · simp at hx
  · simp only [List.mem_cons, List.not_mem_nil, or_false] at hx
    rcases hx with rfl | rfl | rfl
    · exact ha
    · exact hb
    · exact hc

/-- Without a hibernation every name of the boot loader is short. -/
theorem loads_short (b : boot_stats) : ∀ x ∈ loads b false, x.1.length < MARKER_STRING_WIDTH := by
  intro x hx
  simp only [loads, Bool.false_eq_true, if_false, List.mem_append] at hx
  rcases hx with (hx | hx) | hx
  · exact load_markers_short (by decide) (by decide) (by decide) _ _ x hx
  · exact load_markers_short (by decide) (by decide) (by decide) _ _ x hx
  · exact load_markers_short (by decide) (by decide) (by decide) _ _ x hx

theorem indexed_nil (h : Fin 32 → List Nat) (hh : ∀ b, h b = []) (n : Nat) :
    Indexed ⟨[], h, 0, n⟩ := by
  refine ⟨List.nodup_nil, ?_, ?_, rfl, Nat.zero_le _⟩
  · simp
  · simp [hh]

theorem boot_marker_init_keeps (stats : Option boot_stats) :
    Indexed (boot_marker_init kmalloc stats) ∧ Distinct (boot_marker_init kmalloc stats) := by
  have h := indexed_nil (fun _ => []) (fun _ => rfl) 0
  have hd : Distinct ⟨[], fun _ => [], 0, 0⟩ := List.nodup_nil
  unfold boot_marker_init set_bootloader_stats
  cases stats with
  | none => exact ⟨h, hd⟩
  | some b =>
    have hshort : ∀ x ∈ [(text "M - APPSBL Start - ", b.bootloader_start.toUInt64)] ++ loads b false
        ++ [(text "M - APPSBL End - ", b.bootloader_end.toUInt64)],
        x.1.length < MARKER_STRING_WIDTH := by
      intro x hx
      simp only [List.mem_append, List.mem_singleton] at hx
      rcases hx with (rfl | hx) | rfl
      · show (text "M - APPSBL Start - ").length < MARKER_STRING_WIDTH
        decide
      · exact loads_short b x hx
      · show (text "M - APPSBL End - ").length < MARKER_STRING_WIDTH
        decide
    obtain ⟨hi, hd, _⟩ := create_all_keeps kmalloc h hd (apart_of_short hshort)
    exact ⟨hi, hd⟩

/-! ## Every operation -/

theorem boot_marker_cleanup_indexed {s : State} (h : Indexed s) : Indexed (boot_marker_cleanup s) :=
  free_loop_indexed h h.unique (fun _ hm => hm)

/-- The names of a restart: two of them are cut, and none to a name before it. -/
theorem restart_apart (b : boot_stats) {s : State} (hs : s.boot_marker_list = []) :
    Apart s ([(text "M - APPSBL Start - ", b.bootloader_start.toUInt64)] ++ loads b true
      ++ [(text "M - APPSBL End - ", b.bootloader_end.toUInt64)]) := by
  refine ⟨fun x _ => Or.inr ?_, ?_⟩
  · rintro ⟨m, hm, _⟩
    simp [hs] at hm
  · have hnames : [text "M - APPSBL Start - ", text "D - APPSBL Hibernation Image Load Start -",
        text "D - APPSBL Hibernation Image Load End - ", text "M - APPSBL End - "].Pairwise
        (fun x y => y.length < MARKER_STRING_WIDTH ∨ stored_name y ≠ stored_name x) := by
      decide
    exact List.Pairwise.of_map Prod.fst (fun _ _ h => h) hnames

theorem place_restart_keeps {s : State} (h : Indexed s) (hd : Distinct s) (name : Text)
    (stats : Option boot_stats) :
    Indexed (place_restart kmalloc CONFIG_HIBERNATION s name stats) ∧
      Distinct (place_restart kmalloc CONFIG_HIBERNATION s name stats) := by
  unfold place_restart set_bootloader_stats
  split
  · cases stats with
    | none => exact ⟨boot_marker_cleanup_indexed h, free_loop_distinct hd⟩
    | some b =>
      obtain ⟨hi, hd', _⟩ := create_all_keeps kmalloc (boot_marker_cleanup_indexed h)
        (free_loop_distinct hd) (restart_apart b (boot_marker_cleanup_list s))
      exact ⟨hi, hd'⟩
  · exact ⟨h, hd⟩

/-- After a restart there is room for the marker that asked for it. -/
theorem counted_restart {s : State} (h : Indexed s) (hd : Distinct s) {name : Text}
    (hr : restarts CONFIG_HIBERNATION name = true) (stats : Option boot_stats) :
    counted (place_restart kmalloc CONFIG_HIBERNATION s name stats) < MAX_NUM_MARKERS := by
  have hmax : 4 < MAX_NUM_MARKERS := by decide
  have hcleared := boot_marker_cleanup_list s
  rw [(place_restart_keeps h hd name stats).1.counted_eq]
  unfold place_restart set_bootloader_stats
  rw [if_pos hr]
  cases stats with
  | none =>
    rw [hcleared]
    decide
  | some b =>
    obtain ⟨_, _, hlen⟩ := create_all_keeps kmalloc (boot_marker_cleanup_indexed h)
      (free_loop_distinct hd) (restart_apart b (boot_marker_cleanup_list s))
    rw [hcleared] at hlen
    exact Nat.lt_of_le_of_lt hlen hmax

/-- What a placed marker needs, in the state in which `place_marker` creates it: no marker has
the name that its own is cut to; the list is not full, or no marker has the name; and there is
the memory, when a marker is to be made. -/
def Sound (kmalloc : Nat → Bool) (CONFIG_HIBERNATION : Bool) (s : State) : Op → Prop
  | .place_marker name _ stats =>
    let s' := place_restart kmalloc CONFIG_HIBERNATION s name.bytes stats
    let stored := Stored s' (stored_name name.bytes)
    (name.bytes.length < MARKER_STRING_WIDTH ∨ ¬ stored) ∧
    (counted s' < MAX_NUM_MARKERS ∨ ¬ stored) ∧
    (MAX_NUM_MARKERS ≤ counted s' ∨ kmalloc s'.allocs = true ∨ stored)
  | .destroy_marker_kernel _ => True
  | .boot_marker_cleanup => True

theorem step_keeps {s t : State} {op : Op} (h : Indexed s ∧ Distinct s)
    (hc : Sound kmalloc CONFIG_HIBERNATION s op)
    (ht : step kmalloc CONFIG_HIBERNATION s op = some t) : Indexed t ∧ Distinct t := by
  obtain ⟨hi, hd⟩ := h
  cases op with
  | place_marker name ticks stats =>
    cases ht
    obtain ⟨hi', hd'⟩ := place_restart_keeps hi hd name.bytes stats
    exact ⟨create_indexed hi' _ _, create_distinct hi' hd' hc.1 _⟩
  | destroy_marker_kernel name =>
    cases ht
    exact ⟨free_loop_indexed hi hi.unique (fun _ hm => hm), free_loop_distinct hd⟩
  | boot_marker_cleanup =>
    cases ht
    exact ⟨boot_marker_cleanup_indexed hi, free_loop_distinct hd⟩

/-- A placed marker is current when there was one of its name, or room for one. -/
theorem place_marker_current {s : State} (hi : Indexed s) (hd : Distinct s) {name : Name}
    {ticks : UInt64} {stats : Option boot_stats}
    (hc : Sound kmalloc CONFIG_HIBERNATION s (.place_marker name ticks stats))
    (hbefore : Stored s (stored_name name.bytes) ∨ s.num_markers < MAX_NUM_MARKERS) :
    Current (place_marker kmalloc CONFIG_HIBERNATION s name.bytes ticks stats)
      (stored_name name.bytes) ticks := by
  obtain ⟨hshort, hfull, hmem⟩ := hc
  have hroom : counted (place_restart kmalloc CONFIG_HIBERNATION s name.bytes stats) <
      MAX_NUM_MARKERS := by
    rcases hr : restarts CONFIG_HIBERNATION name.bytes with _ | _
    · have hsame : place_restart kmalloc CONFIG_HIBERNATION s name.bytes stats = s := by
        simp [place_restart, hr]
      rw [hsame] at hfull ⊢
      rcases hbefore with hstored | hroom
      · exact hfull.resolve_right (fun hnot => hnot hstored)
      · rw [hi.counted_eq]
        rw [hi.count] at hroom
        exact_mod_cast hroom
    · exact counted_restart hi hd hr stats
  exact create_current (place_restart_keeps hi hd _ _).1 ticks hshort hroom
    (hmem.resolve_left (by omega))

/-- In every run whose placed markers have what they need, no two markers have one name, the
counter counts them, and the next marker placed so is current. -/
theorem boot_markers_are_unique_and_current {stats : Option boot_stats} {s : State}
    (h : step_runs.ReachableUnder (step kmalloc CONFIG_HIBERNATION)
      (Sound kmalloc CONFIG_HIBERNATION) (boot_marker_init kmalloc stats) s) :
    (s.boot_marker_list.map Marker.marker_name).Nodup ∧
    s.num_markers = s.boot_marker_list.length ∧
    ∀ name ticks stats', Sound kmalloc CONFIG_HIBERNATION s (.place_marker name ticks stats') →
      (Stored s (stored_name name.bytes) ∨ s.num_markers < MAX_NUM_MARKERS) →
      Current (place_marker kmalloc CONFIG_HIBERNATION s name.bytes ticks stats')
        (stored_name name.bytes) ticks := by
  obtain ⟨hi, hd⟩ := step_runs.ReachableUnder.inv (fun s => Indexed s ∧ Distinct s)
    (fun _ _ _ hs hc ht => step_keeps hs hc ht) (boot_marker_init_keeps stats) h
  exact ⟨hd, hi.count, fun _ _ _ hc hb => place_marker_current hi hd hc hb⟩

end

/-- A name of forty bytes, one more than a marker stores. -/
def longName : Name := ⟨List.replicate 40 77, by decide, by decide⟩

def shortName : Name := ⟨[77], by decide, by decide⟩

theorem a_short_name_is_placed_again :
    Current (place_marker (fun _ => true) true
      (place_marker (fun _ => true) true (boot_marker_init (fun _ => true) none) [77] 5 none)
      [77] 9 none) [77] 9 := by
  have hfirst : Sound (fun _ => true) true (boot_marker_init (fun _ => true) none)
      (.place_marker shortName 5 none) :=
    ⟨Or.inl (by decide), Or.inl (by decide), Or.inr (Or.inl rfl)⟩
  have hnext : Sound (fun _ => true) true
      (place_marker (fun _ => true) true (boot_marker_init (fun _ => true) none) [77] 5 none)
      (.place_marker shortName 9 none) :=
    ⟨Or.inl (by decide), Or.inl (by decide), Or.inr (Or.inl rfl)⟩
  have hrun := boot_markers_are_unique_and_current
    ⟨[.place_marker shortName 5 none], step_runs.Meets.cons hfirst rfl trivial, rfl⟩
  exact hrun.2.2 shortName 9 none hnext (Or.inr (by decide))

/-- The same long name placed twice: it is not found, and stored a second time. -/
theorem a_long_name_is_stored_twice :
    step_runs.Reachable (step (fun _ => true) false) (boot_marker_init (fun _ => true) none)
      (place_marker (fun _ => true) false
        (place_marker (fun _ => true) false (boot_marker_init (fun _ => true) none)
          longName.bytes 5 none) longName.bytes 9 none) ∧
    ¬ ((place_marker (fun _ => true) false
        (place_marker (fun _ => true) false (boot_marker_init (fun _ => true) none)
          longName.bytes 5 none) longName.bytes 9 none).boot_marker_list.map
            Marker.marker_name).Nodup := by
  refine ⟨⟨[.place_marker longName 5 none, .place_marker longName 9 none], rfl⟩, ?_⟩
  decide

end boot_marker
