-- The report of the boot markers, which bootkpi_reader gives to the user piece by piece.
-- The report stays in a static buffer between two calls; a call that returns 0 is the end
-- of the file, and frees the buffer.
import PlatformKernel.BootMarkers

namespace boot_marker.kpi_reader

open numerals

def BOOTKPI_BUF_SIZE : Nat := PAGE_SIZE * 4
def TIMER_KHZ : Nat := 32768
def INT_MAX : Nat := 2 ^ 31 - 1
def ENOMEM : Int := 12

/-! ## The report -/

def pad_left (c : UInt8) (width : Nat) (t : Text) : Text := List.replicate (width - t.length) c ++ t

def pad_right (c : UInt8) (width : Nat) (t : Text) :
    Text := t ++ List.replicate (width - t.length) c

/-- The line of a marker: `"%-*s%*llu.%0*llu s\n"`. -/
def line (m : Marker) : Text :=
  pad_right 32 MARKER_STRING_WIDTH m.marker_name ++
    pad_left 32 TS_WHOLE_NUM_WIDTH (decimal (m.timer_value.toNat / TIMER_KHZ)) ++ text "." ++
    pad_left 48 TS_PRECISION_WIDTH (decimal (m.timer_value.toNat % TIMER_KHZ * 1000 / TIMER_KHZ)) ++
    text " s\n"

def report (markers : List Marker) : Text := markers.flatMap line

/-- A list of markers. The names are C strings, and the report fits the buffer. -/
structure Markers where
  boot_marker_list : List Marker
  strings : ∀ m ∈ boot_marker_list, 0 ∉ m.marker_name
  fits : (report boot_marker_list).length < BOOTKPI_BUF_SIZE

/-! ## The reader -/

/-- The memory from `kpi_buf` on: the buffer, and what follows it. -/
structure Memory where
  bytes : List UInt8
  large : BOOTKPI_BUF_SIZE ≤ bytes.length

/-- The static variables. -/
structure Reader where
  kpi_buf : Option (List UInt8)
  temp : Nat
  deriving DecidableEq, Repr

def init : Reader := ⟨none, 0⟩

/-- One turn of the loop over the markers: scnprintf behind what is already there. -/
def put_line (b : List UInt8 × Nat) (m : Marker) : List UInt8 × Nat :=
  let t := (line m).take (BOOTKPI_BUF_SIZE - b.2 - 1)
  (b.1.take b.2 ++ t ++ 0 :: b.1.drop (b.2 + t.length + 1), b.2 + t.length)

/-- The string at an offset of the buffer. -/
def cstring (mem : List UInt8) (off : Nat) : Text := (mem.drop off).takeWhile (· ≠ 0)

/-- What a call writes to the user, what it returns, and which bytes from `kpi_buf` on it reads. -/
structure Printed where
  written : Text
  ret : Nat
  reads : List Nat
  deriving DecidableEq, Repr

/-- `scnprintf(user_buffer, size, "%s", kpi_buf + off)`. It reads the string to its end, also when
it has no room for it; a size above INT_MAX is a warning and nothing else. -/
def scnprintf (size : Nat) (mem : List UInt8) (off : Nat) : Printed :=
  if size = 0 ∨ INT_MAX < size then ⟨[], 0, []⟩
  else
    let t := (cstring mem off).take (size - 1)
    ⟨t ++ [0], t.length, List.range' off ((cstring mem off).length + 1)⟩

structure Read where
  ret : Int
  written : Text
  reads : List Nat
  temp : Nat
  deriving DecidableEq, Repr

/-- The buffer with the report, unless there is one already. -/
def prepare (markers : Markers) (kmalloc : Option Memory) (s : Reader) :
    Option (List UInt8 × Nat) :=
  (s.kpi_buf <|> kmalloc.map Memory.bytes).map (fun mem =>
    if s.temp = 0 then markers.boot_marker_list.foldl put_line (mem, 0) else (mem, s.temp))

/-- The bytes that are left, as the comparison with the size_t `count` sees them. -/
def unsigned (n : Int) : Nat := (n % 2 ^ 64).toNat

def bootkpi_reader (markers : Markers) (kmalloc : Option Memory) (s : Reader) (off count : Nat) :
    Read × Reader :=
  match prepare markers kmalloc s with
  | none => (⟨-ENOMEM, [], [], s.temp⟩, s)
  | some (mem, temp) =>
    let p :=
      if count < unsigned ((temp : Int) - off) then scnprintf count mem off
      else scnprintf (unsigned ((temp : Int) + 1 - off)) mem off
    (⟨p.ret, p.written, p.reads, temp⟩, if p.ret = 0 then ⟨none, 0⟩ else ⟨some mem, temp⟩)

/-- The static variables after any calls, with any changes of the markers between them. -/
inductive Reached : Reader → Prop
  | init : Reached init
  | read {s : Reader} (markers : Markers) (kmalloc : Option Memory) (off count : Nat) :
      Reached s → Reached (bootkpi_reader markers kmalloc s off count).2

/-- Reads one after the other, from an offset on, with the bytes that they return up to the one that
returns 0. -/
def session (markers : Markers) (kmalloc : Option Memory) : Reader → Nat → List Nat → Option Text
  | _, _, [] => none
  | s, off, count :: counts =>
    let (r, s') := bootkpi_reader markers kmalloc s off count
    if r.ret < 0 then none
    else if r.ret = 0 then some []
    else (session markers kmalloc s' (off + r.ret.toNat) counts).map
      (r.written.take r.ret.toNat ++ ·)

/-! ## The text in the buffer -/

theorem decimal_no_nul (n : Nat) : 0 ∉ decimal n := by
  intro h
  obtain ⟨d, hd, he⟩ := mem_decimal h
  have hnat := congrArg UInt8.toNat he
  rw [digit_char_toNat hd, show (0 : UInt8).toNat = 0 from rfl] at hnat
  omega

theorem line_no_nul {m : Marker} (h : 0 ∉ m.marker_name) : 0 ∉ line m := by
  have hdot : (0 : UInt8) ∉ text "." := by decide
  have hend : (0 : UInt8) ∉ text " s\n" := by decide
  simp [line, pad_left, pad_right, h, decimal_no_nul, hdot, hend]

theorem report_no_nul (markers : Markers) : 0 ∉ report markers.boot_marker_list := by
  rw [report, List.mem_flatMap]
  rintro ⟨m, hm, h0⟩
  exact line_no_nul (markers.strings m hm) h0

/-- One turn of the loop, when the line fits behind the text before it. -/
theorem put_line_eq {r rest : List UInt8} {m : Marker}
    (hfits : (r ++ line m).length < BOOTKPI_BUF_SIZE) :
    put_line (r ++ rest, r.length) m =
      (r ++ line m ++ 0 :: rest.drop ((line m).length + 1), (r ++ line m).length) := by
  rw [List.length_append] at hfits
  have hline : (line m).take (BOOTKPI_BUF_SIZE - r.length - 1) = line m :=
    List.take_of_length_le (by omega)
  simp only [put_line, hline]
  rw [List.take_left, List.length_append, Nat.add_assoc, List.drop_length_add_append]

/-- The loop puts the lines behind the text before them, with a 0 at the end. -/
theorem foldl_put_line {l : List Marker} {r rest : List UInt8}
    (hfits : (r ++ report l).length < BOOTKPI_BUF_SIZE) :
    ∃ tail, l.foldl put_line (r ++ rest, r.length) =
      (r ++ report l ++ tail, (r ++ report l).length) ∧
      (l = [] → tail = rest) ∧ (l ≠ [] → ∃ t, tail = 0 :: t) := by
  induction l generalizing r rest with
  | nil => exact ⟨rest, by simp [report], fun _ => rfl, fun h => absurd rfl h⟩
  | cons m l ih =>
    have hreport : report (m :: l) = line m ++ report l := rfl
    rw [hreport, ← List.append_assoc] at hfits ⊢
    have hfirst : (r ++ line m).length < BOOTKPI_BUF_SIZE := by
      rw [List.length_append] at hfits
      omega
    rw [List.foldl_cons, put_line_eq hfirst]
    obtain ⟨tail, he, hnil, hcons⟩ := ih hfits
    refine ⟨tail, he, by simp, fun _ => ?_⟩
    by_cases hl : l = []
    · exact ⟨_, hnil hl⟩
    · exact hcons hl

/-- The buffer keeps its length. -/
theorem foldl_put_line_length (l : List Marker) (b : List UInt8 × Nat)
    (htemp : b.2 < BOOTKPI_BUF_SIZE) (hlarge : BOOTKPI_BUF_SIZE ≤ b.1.length) :
    BOOTKPI_BUF_SIZE ≤ (l.foldl put_line b).1.length := by
  induction l generalizing b with
  | nil => exact hlarge
  | cons m l ih =>
    rw [List.foldl_cons]
    have htake : ((line m).take (BOOTKPI_BUF_SIZE - b.2 - 1)).length ≤ BOOTKPI_BUF_SIZE - b.2 - 1 :=
      List.length_take_le _ _
    refine ih _ ?_ ?_
    · simp only [put_line]
      omega
    · simp only [put_line, List.length_append, List.length_cons, List.length_take, List.length_drop]
        at htake ⊢
      omega

theorem line_ne_nil (m : Marker) : line m ≠ [] := by
  intro h
  have hdot : (46 : UInt8) ∈ line m := by
    simp [line, show text "." = [46] from by decide]
  rw [h] at hdot
  cases hdot

theorem report_eq_nil_iff (l : List Marker) : report l = [] ↔ l = [] := by
  cases l with
  | nil => simp [report]
  | cons m l => simp [report, line_ne_nil]

/-- The buffer holds the text `r` and the 0 that ends it; with no text it holds anything. -/
def Holds (mem : List UInt8) (r : Text) : Prop :=
  0 ∉ r ∧ r.length < BOOTKPI_BUF_SIZE ∧ mem ≠ [] ∧ (r ≠ [] → ∃ rest, mem = r ++ 0 :: rest)

theorem Holds.cstring {mem : List UInt8} {r : Text} (h : Holds mem r) (hr : r ≠ []) {off : Nat}
    (hoff : off ≤ r.length) : cstring mem off = r.drop off := by
  obtain ⟨h0, _, _, hrest⟩ := h
  obtain ⟨rest, rfl⟩ := hrest hr
  have hall : ∀ b ∈ r.drop off, (decide (b ≠ 0)) = true := by
    intro b hb
    have hne : b ≠ 0 := fun hb0 => h0 (hb0 ▸ List.mem_of_mem_drop hb)
    simpa using hne
  rw [kpi_reader.cstring, List.drop_append_of_le_length hoff, List.takeWhile_append_of_pos hall]
  simp

/-- What the static variables hold: nothing, or a buffer, with a text when `temp` counts one. -/
def Ready (s : Reader) : Prop :=
  (s.kpi_buf = none → s.temp = 0) ∧
    ∀ mem, s.kpi_buf = some mem → BOOTKPI_BUF_SIZE ≤ mem.length ∧
      (0 < s.temp → ∃ r, r.length = s.temp ∧ Holds mem r)

/-- The text that the next call gives: one that is left over, or a new report. -/
def pending (markers : Markers) (s : Reader) : Text :=
  if s.temp = 0 then report markers.boot_marker_list else (s.kpi_buf.getD []).take s.temp

theorem Holds.ne_nil_of_large {mem : List UInt8} (h : BOOTKPI_BUF_SIZE ≤ mem.length) :
    mem ≠ [] := by
  rintro rfl
  exact absurd h (by decide)

/-- The buffer that a call reads holds the text that is pending. -/
theorem prepare_some {markers : Markers} {kmalloc : Option Memory} {s : Reader} (h : Ready s)
    {mem : List UInt8} {temp : Nat} (hp : prepare markers kmalloc s = some (mem, temp)) :
    temp = (pending markers s).length ∧ Holds mem (pending markers s) ∧
      BOOTKPI_BUF_SIZE ≤ mem.length ∧
      (pending markers s = [] → (s.kpi_buf <|> kmalloc.map Memory.bytes) = some mem) := by
  obtain ⟨buf, hbuf, he⟩ := Option.map_eq_some_iff.mp hp
  have hlarge : BOOTKPI_BUF_SIZE ≤ buf.length := by
    rcases hk : s.kpi_buf with _ | mem'
    · rw [hk] at hbuf
      obtain ⟨fresh, _, rfl⟩ := Option.map_eq_some_iff.mp (by simpa using hbuf)
      exact fresh.large
    · rw [hk] at hbuf
      obtain rfl : mem' = buf := by simpa using hbuf
      exact (h.2 mem' hk).1
  by_cases htemp : s.temp = 0
  · have hpending : pending markers s = report markers.boot_marker_list := if_pos htemp
    obtain ⟨tail, hfold, hnil, hcons⟩ := @foldl_put_line markers.boot_marker_list
      [] buf markers.fits
    rw [if_pos htemp] at he
    obtain ⟨hmem, htemp'⟩ := Prod.mk.inj (he.symm.trans hfold)
    rw [List.nil_append] at hmem htemp'
    have hsize := foldl_put_line_length markers.boot_marker_list (buf, 0)
      (show 0 < BOOTKPI_BUF_SIZE by decide) hlarge
    rw [he] at hsize
    rw [hpending]
    refine ⟨htemp',
      ⟨report_no_nul markers, markers.fits, Holds.ne_nil_of_large hsize, ?_⟩, hsize, ?_⟩
    · intro hne
      obtain ⟨t, rfl⟩ := hcons (fun hl => hne ((report_eq_nil_iff _).mpr hl))
      exact ⟨t, hmem⟩
    · intro hnone
      rw [hmem, hnone, hnil ((report_eq_nil_iff _).mp hnone)]
      exact hbuf
  · rw [if_neg htemp] at he
    obtain ⟨rfl, rfl⟩ := Prod.mk.inj he
    have hk : s.kpi_buf = some buf := by
      rcases hk : s.kpi_buf with _ | mem'
      · exact absurd (h.1 hk) htemp
      · rw [hk] at hbuf
        exact hbuf
    obtain ⟨hsize, htext⟩ := h.2 buf hk
    obtain ⟨r, hr, hholds⟩ := htext (Nat.pos_of_ne_zero htemp)
    have hne : r ≠ [] := by
      rintro rfl
      exact htemp hr.symm
    have hpending : pending markers s = r := by
      obtain ⟨rest, hrest⟩ := hholds.2.2.2 hne
      rw [pending, if_neg htemp, hk, Option.getD_some, hrest, ← hr, List.take_left]
    rw [hpending]
    exact ⟨hr.symm, hholds, hsize, fun hnone => absurd hnone hne⟩

/-! ## One call -/

/-- What the two branches of the call print. -/
def printed (mem : List UInt8) (temp off count : Nat) : Printed :=
  if count < unsigned ((temp : Int) - off) then scnprintf count mem off
  else scnprintf (unsigned ((temp : Int) + 1 - off)) mem off

theorem bootkpi_reader_some {markers : Markers} {kmalloc : Option Memory} {s : Reader}
    {mem : List UInt8} {temp : Nat} (hp : prepare markers kmalloc s = some (mem, temp))
    (off count : Nat) : bootkpi_reader markers kmalloc s off count =
      (⟨(printed mem temp off count).ret, (printed mem temp off count).written,
        (printed mem temp off count).reads, temp⟩,
        if (printed mem temp off count).ret = 0 then ⟨none, 0⟩ else ⟨some mem, temp⟩) := by
  rw [bootkpi_reader, hp]
  rfl

theorem unsigned_sub {a b : Nat} (h : b ≤ a) (ha : a < 2 ^ 64) :
    unsigned ((a : Int) - b) = a - b := by
  unfold unsigned
  omega

theorem unsigned_neg {a b : Nat} (h : a < b) (hb : b < 2 ^ 63) :
    unsigned ((a : Int) - b) = 2 ^ 64 - (b - a) := by
  unfold unsigned
  omega

/-- Inside of the text, a call prints what is left when the user has room for it, and otherwise one
byte less than the user has room for. -/
theorem printed_inside {mem : List UInt8} {r : Text} (h : Holds mem r) {off count : Nat}
    (hoff : off ≤ r.length) (hcount : 0 < count) :
    (printed mem r.length off count).written = (printed mem r.length off count).written.take
        (printed mem r.length off count).ret ++ [0] ∧
    (printed mem r.length off count).written.take (printed mem r.length off count).ret =
      (r.drop off).take (printed mem r.length off count).ret ∧
    (printed mem r.length off count).ret =
      (if count < r.length - off then count - 1 else r.length - off) ∧
    (printed mem r.length off count).reads =
      List.range' off (if r = [] then (cstring mem off).length + 1 else r.length - off + 1) := by
  have hsmall : r.length < 16384 := h.2.1
  have hsize : unsigned ((r.length : Int) + 1 - off) = r.length - off + 1 := by
    unfold unsigned
    omega
  -- the string in the buffer, and what of it the text says
  have hstr : (cstring mem off).take (r.length - off) = r.drop off ∧
      (cstring mem off).length + 1 = if r = [] then (cstring mem off).length + 1
        else r.length - off + 1 := by
    by_cases hr : r = []
    · subst hr
      rw [if_pos rfl]
      simp
    · rw [if_neg hr, h.cstring hr hoff, List.length_drop]
      exact ⟨List.take_of_length_le (by rw [List.length_drop]), rfl⟩
  rw [printed, unsigned_sub hoff (by omega), hsize]
  by_cases hlt : count < r.length - off
  · have hr : r ≠ [] := by
      rintro rfl
      simp at hlt
    have hlen : ((r.drop off).take (count - 1)).length = count - 1 := by
      rw [List.length_take, List.length_drop]
      omega
    rw [if_pos hlt, if_pos hlt, scnprintf, if_neg (by unfold INT_MAX; omega)]
    dsimp only
    refine ⟨?_, ?_, ?_, congrArg (List.range' off) hstr.2⟩
    · rw [h.cstring hr hoff, hlen, List.take_left' hlen]
    · rw [h.cstring hr hoff, hlen, List.take_left' hlen]
    · rw [h.cstring hr hoff, hlen]
  · have hlen : (r.drop off).length = r.length - off := List.length_drop
    rw [if_neg hlt, if_neg hlt, scnprintf, if_neg (by unfold INT_MAX; omega)]
    dsimp only
    refine ⟨?_, ?_, ?_, congrArg (List.range' off) hstr.2⟩
    · rw [Nat.add_sub_cancel, hstr.1, hlen, List.take_left' hlen]
    · rw [Nat.add_sub_cancel, hstr.1, hlen, List.take_left' hlen,
        List.take_of_length_le (by rw [hlen])]
    · rw [Nat.add_sub_cancel, hstr.1, hlen]

/-- Behind the text, a call reads on where the count fits an int, and does nothing where it does
not. -/
theorem printed_behind {mem : List UInt8} {temp off count : Nat} (hlt : temp < off)
    (hoff : off < 2 ^ 63) :
    (count ≤ INT_MAX → 0 < count → off ∈ (printed mem temp off count).reads) ∧
    (INT_MAX < count → printed mem temp off count = ⟨[], 0, []⟩) := by
  have hleft := unsigned_neg hlt hoff
  rw [printed, hleft]
  constructor
  · intro hcount hpos
    rw [if_pos (by unfold INT_MAX at hcount; omega), scnprintf, if_neg (by omega)]
    dsimp only
    rw [List.mem_range'_1]
    omega
  · intro hcount
    split
    · rw [scnprintf, if_pos (Or.inr hcount)]
    · have hsize : unsigned ((temp : Int) + 1 - off) = 0 ∨
          INT_MAX < unsigned ((temp : Int) + 1 - off) := by
        unfold unsigned INT_MAX
        omega
      rw [scnprintf, if_pos hsize]

/-! ## The static variables -/

theorem bootkpi_reader_ready {markers : Markers} {kmalloc : Option Memory} {s : Reader}
    (h : Ready s)
    (off count : Nat) : Ready (bootkpi_reader markers kmalloc s off count).2 := by
  rcases hp : prepare markers kmalloc s with _ | ⟨mem, temp⟩
  · rw [bootkpi_reader, hp]
    exact h
  · obtain ⟨htemp, hholds, hlarge, _⟩ := prepare_some h hp
    rw [bootkpi_reader_some hp]
    dsimp only
    split
    · exact ⟨fun _ => rfl, fun mem hmem => nomatch hmem⟩
    · refine ⟨fun hnone => (nomatch hnone), fun mem' hmem => ?_⟩
      obtain rfl := Option.some.inj hmem
      exact ⟨hlarge, fun _ => ⟨_, htemp.symm, hholds⟩⟩

theorem Reached.ready {s : Reader} (h : Reached s) : Ready s := by
  induction h with
  | init => exact ⟨fun _ => rfl, fun mem hmem => nomatch hmem⟩
  | read markers kmalloc off count _ ih => exact bootkpi_reader_ready ih off count

/-! ## What the user gets -/

/-- A call stays inside of the user's buffer, and of the text in its own. -/
def InBounds (r : Read) (count : Nat) : Prop :=
  r.written.length ≤ count ∧ ∀ i ∈ r.reads, i < r.temp + 1

/-- When a call with a buffer stays in bounds: from inside of the text it may not ask for just what
is left, and where there is no text the buffer has to hold a 0; from behind the text only a count
that is no int is harmless. -/
def Bounded (mem : List UInt8) (text : Text) (off count : Nat) : Prop :=
  if off ≤ text.length then text.length - off ≠ count ∧ (text = [] → mem.head? = some 0)
  else INT_MAX < count

theorem cstring_nil_iff {mem : List UInt8} (h : mem ≠ []) :
    (cstring mem 0).length = 0 ↔ mem.head? = some 0 := by
  cases mem with
  | nil => exact absurd rfl h
  | cons b mem =>
    by_cases hb : b = 0
    · simp [cstring, hb]
    · simp [cstring, hb]

/-- Inside of the text, the bytes that are read end where the text does, if there is a text. -/
theorem reads_inside {mem : List UInt8} {r : Text} (h : Holds mem r) {off count : Nat}
    (hoff : off ≤ r.length) (hcount : 0 < count) :
    (∀ i ∈ (printed mem r.length off count).reads, i < r.length + 1) ↔
      (r = [] → mem.head? = some 0) := by
  obtain ⟨_, _, _, hreads⟩ := printed_inside h hoff hcount
  rw [hreads]
  by_cases hr : r = []
  · subst hr
    obtain rfl : off = 0 := Nat.le_zero.mp hoff
    rw [if_pos rfl, ← cstring_nil_iff h.2.2.1]
    constructor
    · intro hall _
      have hlast := hall (cstring mem 0).length (List.mem_range'_1.mpr ⟨Nat.zero_le _, by omega⟩)
      simpa using hlast
    · intro hnil i hi
      have hlt := (List.mem_range'_1.mp hi).2
      rw [hnil rfl] at hlt
      simpa using hlt
  · rw [if_neg hr]
    constructor
    · exact fun _ hnil => absurd hnil hr
    · intro _ i hi
      have hlt := (List.mem_range'_1.mp hi).2
      omega

/-- One call, on a buffer that holds a text. -/
theorem printed_in_bounds_iff {mem : List UInt8} {r : Text} (h : Holds mem r) {off count : Nat}
    (hoff : off < 2 ^ 63) (hcount : 0 < count) :
    ((printed mem r.length off count).written.length ≤ count ∧
      ∀ i ∈ (printed mem r.length off count).reads, i < r.length + 1) ↔
        Bounded mem r off count := by
  by_cases hin : off ≤ r.length
  · rw [Bounded, if_pos hin, reads_inside h hin hcount]
    refine and_congr_left fun _ => ?_
    obtain ⟨hwritten, htake, hret, _⟩ := printed_inside h hin hcount
    have hlen : (printed mem r.length off count).written.length =
        (printed mem r.length off count).ret + 1 := by
      rw [hwritten, htake, List.length_append, List.length_take, List.length_drop, hret]
      split
      · simp
        omega
      · simp
    rw [hlen, hret]
    split <;> omega
  · rw [Bounded, if_neg hin]
    obtain ⟨hsmall, hbig⟩ := @printed_behind mem r.length off count (Nat.lt_of_not_le hin) hoff
    constructor
    · rintro ⟨_, hreads⟩
      by_contra hle
      have hlt := hreads off (hsmall (Nat.le_of_not_lt hle) hcount)
      omega
    · intro hlt
      rw [hbig hlt]
      exact ⟨Nat.zero_le _, fun i hi => by cases hi⟩

/-! ## Reads one after the other -/

/-- Reads of a text of a length meet a count of 1 after `k` bytes, with more than one byte left. -/
def EndsEarly (len : Nat) (counts : List Nat) (k : Nat) : Prop :=
  ∃ before after, counts = before ++ 1 :: after ∧ 1 ∉ before ∧
    (before.map (· - 1)).sum = k ∧ k + 1 < len

theorem not_ends_early_of_le {len count : Nat} {counts : List Nat} (h : len ≤ count) (k : Nat) :
    ¬ EndsEarly len (count :: counts) k := by
  rintro ⟨before, after, he, _, hsum, hlt⟩
  cases before with
  | nil =>
    obtain ⟨rfl, _⟩ := List.cons.inj he
    omega
  | cons c before =>
    obtain ⟨rfl, _⟩ := List.cons.inj he
    rw [List.map_cons, List.sum_cons] at hsum
    omega

theorem ends_early_one {len : Nat} {counts : List Nat} (h : 1 < len) (k : Nat) :
    EndsEarly len (1 :: counts) k ↔ k = 0 := by
  constructor
  · rintro ⟨before, after, he, hnot, hsum, _⟩
    cases before with
    | nil => exact hsum.symm
    | cons c before => exact absurd (List.mem_cons.mpr (Or.inl (List.cons.inj he).1)) hnot
  · rintro rfl
    exact ⟨[], counts, rfl, by simp, rfl, h⟩

theorem ends_early_cons {len count : Nat} {counts : List Nat} (h1 : 1 < count) (hlt : count < len)
    (k : Nat) : EndsEarly len (count :: counts) k ↔
      ∃ j, k = count - 1 + j ∧ EndsEarly (len - (count - 1)) counts j := by
  constructor
  · rintro ⟨before, after, he, hnot, hsum, hk⟩
    cases before with
    | nil => exact absurd (List.cons.inj he).1 (by omega)
    | cons c before =>
      obtain ⟨rfl, hrest⟩ := List.cons.inj he
      rw [List.map_cons, List.sum_cons] at hsum
      exact ⟨_, hsum.symm, before, after, hrest, fun hm => hnot (List.mem_cons_of_mem _ hm), rfl,
        by omega⟩
  · rintro ⟨j, rfl, before, after, rfl, hnot, hsum, hj⟩
    refine ⟨count :: before, after, rfl, ?_, ?_, by omega⟩
    · rw [List.mem_cons]
      rintro (h | h)
      · omega
      · exact hnot h
    · rw [List.map_cons, List.sum_cons, hsum]

/-- A read that returns something leaves the text where it is. -/
theorem pending_after {markers : Markers} {mem : List UInt8} {r : Text} (h : Holds mem r)
    (hr : r ≠ []) : pending markers ⟨some mem, r.length⟩ = r := by
  obtain ⟨rest, hrest⟩ := h.2.2.2 hr
  rw [pending, if_neg (by simpa using hr), Option.getD_some, hrest, List.take_left]

/-- One read of a session, from inside of the text that is pending. -/
theorem session_cons {markers : Markers} {kmalloc : Option Memory} {s : Reader} (h : Ready s)
    {off count : Nat} {counts : List Nat} {bytes : Text} (hoff : off ≤ (pending markers s).length)
    (hcount : 0 < count) (hs : session markers kmalloc s off (count :: counts) = some bytes) :
    ∃ n, n = (if count < (pending markers s).length - off then count - 1
        else (pending markers s).length - off) ∧
      (n = 0 → bytes = []) ∧
      (n ≠ 0 → ∃ s' rest, Ready s' ∧ pending markers s' = pending markers s ∧
        session markers kmalloc s' (off + n) counts = some rest ∧
        bytes = ((pending markers s).drop off).take n ++ rest) := by
  rcases hp : prepare markers kmalloc s with _ | ⟨mem, temp⟩
  · rw [session, bootkpi_reader, hp] at hs
    dsimp only at hs
    rw [if_pos (by decide)] at hs
    cases hs
  · obtain ⟨rfl, hholds, hlarge, _⟩ := prepare_some h hp
    obtain ⟨_, htake, hret, _⟩ := printed_inside hholds hoff hcount
    have hready := @bootkpi_reader_ready markers kmalloc s h off count
    rw [bootkpi_reader_some hp] at hready
    rw [session, bootkpi_reader_some hp] at hs
    dsimp only at hs hready
    rw [if_neg (by omega)] at hs
    refine ⟨_, hret, ?_, ?_⟩
    · intro hzero
      rw [if_pos (by omega)] at hs
      exact (Option.some.inj hs).symm
    · intro hne
      rw [if_neg (by omega), if_neg hne, Int.toNat_natCast, htake] at hs
      rw [if_neg hne] at hready
      obtain ⟨rest, hrest, rfl⟩ := Option.map_eq_some_iff.mp hs
      have hr : pending markers s ≠ [] := by
        intro hnil
        rw [hret, hnil] at hne
        simp at hne
      exact ⟨_, rest, hready, pending_after hholds hr, hrest, rfl⟩

/-- A session returns the text that is pending, up to the count of 1 that ends it early. -/
theorem session_some {markers : Markers} {kmalloc : Option Memory} {s : Reader} (h : Ready s)
    {off : Nat} {counts : List Nat} {bytes : Text} (hoff : off ≤ (pending markers s).length)
    (hcounts : ∀ c ∈ counts, 0 < c) (hs : session markers kmalloc s off counts = some bytes) :
    (∀ k, EndsEarly ((pending markers s).length - off) counts k →
      bytes = ((pending markers s).drop off).take k) ∧
    ((¬ ∃ k, EndsEarly ((pending markers s).length - off) counts k) →
      bytes = (pending markers s).drop off) := by
  induction counts generalizing s off bytes with
  | nil => cases hs
  | cons count counts ih =>
    have hpos := hcounts count (List.mem_cons_self ..)
    have hrest : ∀ c ∈ counts, 0 < c := fun c hc => hcounts c (List.mem_cons_of_mem _ hc)
    obtain ⟨n, hn, hzero, hmore⟩ := session_cons h hoff hpos hs
    by_cases hlt : count < (pending markers s).length - off
    · rw [if_pos hlt] at hn
      by_cases h1 : count = 1
      · subst h1
        rw [hzero hn]
        constructor
        · intro k hk
          rw [(ends_early_one hlt k).mp hk, List.take_zero]
        · exact fun hnone => absurd ⟨0, (ends_early_one hlt 0).mpr rfl⟩ hnone
      · obtain ⟨s', rest, hready, hpending, hs', rfl⟩ := hmore (by omega)
        have hleft : (pending markers s').length - (off + n) =
            (pending markers s).length - off - (count - 1) := by
          rw [hpending]
          omega
        obtain ⟨hearly, hwhole⟩ := ih hready (by rw [hpending]; omega) hrest hs'
        rw [hleft, hpending, ← List.drop_drop, hn] at hearly hwhole
        rw [hn]
        constructor
        · intro k hk
          obtain ⟨j, rfl, hj⟩ := (ends_early_cons (by omega) hlt k).mp hk
          rw [hearly j hj, ← List.take_add]
        · intro hnone
          rw [hwhole fun ⟨j, hj⟩ => hnone ⟨_, (ends_early_cons (by omega) hlt _).mpr ⟨j, rfl, hj⟩⟩,
            List.take_append_drop]
    · rw [if_neg hlt] at hn
      refine ⟨fun k hk => absurd hk (not_ends_early_of_le (Nat.le_of_not_lt hlt) k), fun _ => ?_⟩
      by_cases hn0 : n = 0
      · rw [hzero hn0, List.drop_eq_nil_of_le (by omega)]
      · -- all that is left comes at once, and the reads after it return nothing more
        obtain ⟨s', rest, hready, hpending, hs', rfl⟩ := hmore hn0
        obtain ⟨_, hwhole⟩ := ih hready (by rw [hpending]; omega) hrest hs'
        have hnone : ¬ ∃ k, EndsEarly ((pending markers s').length - (off + n)) counts k := by
          rintro ⟨k, _, _, _, _, _, hk⟩
          rw [hpending] at hk
          omega
        have hend : (pending markers s).drop (off + n) = [] := List.drop_eq_nil_of_le (by omega)
        rw [hwhole hnone, hpending, hend, List.append_nil,
          List.take_of_length_le (by rw [List.length_drop]; omega)]

theorem in_bounds_iff {markers : Markers} {kmalloc : Option Memory} {s : Reader} (h : Ready s)
    {off count : Nat} (hoff : off < 2 ^ 63) (hcount : 0 < count) :
    InBounds (bootkpi_reader markers kmalloc s off count).1 count ↔
      ∀ mem, (s.kpi_buf <|> kmalloc.map Memory.bytes) = some mem →
        Bounded mem (pending markers s) off count := by
  rcases hp : prepare markers kmalloc s with _ | ⟨mem, temp⟩
  · have hnone : (s.kpi_buf <|> kmalloc.map Memory.bytes) = none := Option.map_eq_none_iff.mp hp
    rw [bootkpi_reader, hp, hnone]
    exact iff_of_true ⟨Nat.zero_le _, fun i hi => by cases hi⟩ (fun mem hmem => by cases hmem)
  · obtain ⟨buf, hbuf, _⟩ := Option.map_eq_some_iff.mp hp
    obtain ⟨rfl, hholds, _, hnil⟩ := prepare_some h hp
    rw [bootkpi_reader_some hp, InBounds, printed_in_bounds_iff hholds hoff hcount, hbuf]
    -- the buffer before the report is put into it counts only where there is no report
    have hsame : Bounded mem (pending markers s) off count ↔
        Bounded buf (pending markers s) off count := by
      by_cases hr : pending markers s = []
      · rw [hnil hr] at hbuf
        rw [Option.some.inj hbuf]
      · simp [Bounded, hr]
    rw [hsame]
    exact ⟨fun hb mem' hmem => Option.some.inj hmem ▸ hb, fun hall => hall buf rfl⟩

theorem complete_iff {markers : Markers} {kmalloc : Option Memory} {s : Reader} (h : Ready s)
    {counts : List Nat} {bytes : Text} (hcounts : ∀ c ∈ counts, 0 < c)
    (hs : session markers kmalloc s 0 counts = some bytes) (whole : Text) :
    bytes = whole ↔
      (∃ k, EndsEarly (pending markers s).length counts k ∧ (pending markers s).take k = whole) ∨
      ((¬ ∃ k, EndsEarly (pending markers s).length counts k) ∧ pending markers s = whole) := by
  obtain ⟨hearly, hall⟩ := session_some h (Nat.zero_le _) hcounts hs
  rw [Nat.sub_zero, List.drop_zero] at hearly hall
  by_cases hends : ∃ k, EndsEarly (pending markers s).length counts k
  · rw [or_iff_left (fun hn => hn.1 hends)]
    constructor
    · rintro rfl
      obtain ⟨k, hk⟩ := hends
      exact ⟨k, hk, (hearly k hk).symm⟩
    · rintro ⟨k, hk, he⟩
      rw [hearly k hk, he]
  · rw [or_iff_right (fun ⟨k, hk, _⟩ => hends ⟨k, hk⟩), hall hends]
    exact ⟨fun he => ⟨hends, he⟩, fun he => he.2⟩

/-- Which calls stay in bounds, and which sessions return the whole report. -/
theorem reads_are_bounded_and_complete_iff (markers : Markers) (kmalloc : Option Memory)
    (s : Reader)
    (h : Reached s) :
    (∀ off count, off < 2 ^ 63 → 0 < count → count < 2 ^ 64 →
      (InBounds (bootkpi_reader markers kmalloc s off count).1 count ↔
        ∀ mem, (s.kpi_buf <|> kmalloc.map Memory.bytes) = some mem →
          Bounded mem (pending markers s) off count)) ∧
    (∀ counts bytes, (∀ c ∈ counts, 0 < c ∧ c < 2 ^ 64) →
      session markers kmalloc s 0 counts = some bytes →
      (bytes = report markers.boot_marker_list ↔
        (∃ k, EndsEarly (pending markers s).length counts k ∧
          (pending markers s).take k = report markers.boot_marker_list) ∨
        ((¬ ∃ k, EndsEarly (pending markers s).length counts k) ∧
          pending markers s = report markers.boot_marker_list))) := by
  constructor
  · intro off count hoff hcount _
    exact in_bounds_iff h.ready hoff hcount
  · intro counts bytes hcounts hs
    exact complete_iff h.ready (fun c hc => (hcounts c hc).1) hs _

/-- A list with one marker, whose line has 55 bytes. -/
def one_marker : Markers where
  boot_marker_list := [⟨0, text "M - APPSBL Start - ", 0, by decide⟩]
  strings := by decide
  fits := by decide

def zeroed : Memory := ⟨List.replicate BOOTKPI_BUF_SIZE 0, by simp⟩

theorem a_page_reads_one_marker :
    InBounds (bootkpi_reader one_marker (some zeroed) init 0 4096).1 4096 ∧
      session one_marker (some zeroed) init 0 [4096, 4096] =
        some (report one_marker.boot_marker_list) := by
  obtain ⟨hbounds, hwhole⟩ :=
    reads_are_bounded_and_complete_iff one_marker (some zeroed) init Reached.init
  have hlength : (report one_marker.boot_marker_list).length = 55 := by decide
  constructor
  · refine (hbounds 0 4096 (by decide) (by decide) (by decide)).mpr fun mem _ => ?_
    have hinside : 0 ≤ (pending one_marker init).length := Nat.zero_le _
    have hpending : pending one_marker init = report one_marker.boot_marker_list := rfl
    rw [Bounded, if_pos hinside, hpending, hlength]
    refine ⟨by decide, fun hnil => ?_⟩
    rw [hnil] at hlength
    cases hlength
  · have hs : (session one_marker (some zeroed) init 0 [4096, 4096]).isSome = true := by rfl
    obtain ⟨bytes, hbytes⟩ := Option.isSome_iff_exists.mp hs
    rw [hbytes, (hwhole _ _ (by decide) hbytes).mpr (Or.inr ⟨?_, rfl⟩)]
    exact fun ⟨k, hk⟩ => not_ends_early_of_le (by decide) k hk

theorem a_read_of_all_that_is_left_writes_one_byte_more :
    ¬ InBounds (bootkpi_reader one_marker (some zeroed) init 0 55).1 55 ∧
    ¬ InBounds (bootkpi_reader one_marker (some zeroed) init 56 55).1 55 ∧
    session one_marker (some zeroed) init 0 [1] = some [] ∧
    report one_marker.boot_marker_list ≠ [] := by
  refine ⟨fun hin => ?_, fun hin => ?_, by rfl, by decide⟩
  · have hb := (in_bounds_iff Reached.init.ready (by decide) (by decide)).mp hin _ rfl
    rw [Bounded, if_pos (by decide)] at hb
    exact absurd (by decide) hb.1
  · have hb := (in_bounds_iff Reached.init.ready (by decide) (by decide)).mp hin _ rfl
    rw [Bounded, if_neg (by decide)] at hb
    exact absurd hb (by decide)

end boot_marker.kpi_reader
