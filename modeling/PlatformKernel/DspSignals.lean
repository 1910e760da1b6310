-- The signals of the DSP: how hybrid_fastrpc_core.c creates, waits for, cancels
-- and destroys them, and how handle_remote_signal of hybrid_fastrpc_vdev.c
-- wakes a waiter. Each step is one section under dspsignals_lock, or one way
-- out of the completion.
import PlatformKernel.Lib.Runs
import PlatformKernel.Lib.Keyed
import PlatformKernel.Lib.Completion

namespace virtual_fastrpc.dsp_signals

open keyed completion step_runs

/-! ## The signals of a session -/

def DSPSIGNAL_NUM_SIGNALS : Nat := 1024

/-- So many signals are allocated together. -/
def DSPSIGNAL_GROUP_SIZE : Nat := 256

/-- `enum dspsignal_state`. -/
inductive State
  | UNUSED | PENDING | SIGNALED | CANCELED
  deriving DecidableEq, Repr

inductive Errno
  | EINVAL | ENOENT | EINTR | ETIMEDOUT | ERESTARTSYS | EBUSY | ENOMEM
  deriving DecidableEq, Repr

structure Dspsignal where
  comp : Completion
  state : State
  deriving DecidableEq, Repr

/-- A call of hfastrpc_dspsignal_wait that has passed its first check. The last field is for the
laws only. -/
structure Waiter where
  tid : Nat
  signal_id : Nat
  timeout_usec : BitVec 32
  /-- It has left the completion, and not yet looked at the state again. -/
  woken : Bool
  /-- The signal was cancelled or destroyed while it waited. -/
  hit : Bool
  deriving DecidableEq, Repr

/-- A wait that has returned, and its result: no error is 0. -/
structure Return where
  waiter : Waiter
  err : Option Errno
  deriving DecidableEq, Repr

/-- A session. The last three fields are for the laws only: for each signal, how often it was
received while it was pending or signaled, and how many waits for it returned 0, both since it
was created; and all the waits that returned. -/
structure File where
  ptr : Nat
  upid : BitVec 32
  domain : Int
  signal_groups : Nat → Option (Nat → Dspsignal)
  waiters : List Waiter
  received : Nat → Nat
  zeros : Nat → Nat
  returns : List Return

/-- The session after hfastrpc_file_alloc. -/
def hfastrpc_file_alloc (v : Nat) : File :=
  ⟨v, 0, -1, fun _ => none, [], fun _ => 0, fun _ => 0, []⟩

/-- A table with one entry changed. -/
def set {α : Type} (t : Nat → α) (i : Nat) (a : α) : Nat → α := fun j => if j = i then a else t j

def File.signal (f : File) (signal_id : Nat) : Option Dspsignal :=
  (f.signal_groups (signal_id / DSPSIGNAL_GROUP_SIZE)).map
    (fun group => group (signal_id % DSPSIGNAL_GROUP_SIZE))

/-- The write of a signal in its group. -/
def File.setSignal (f : File) (signal_id : Nat) (s : Dspsignal) : File :=
  { f with signal_groups := fun g =>
      if g = signal_id / DSPSIGNAL_GROUP_SIZE then
        (f.signal_groups g).map (fun group => set group (signal_id % DSPSIGNAL_GROUP_SIZE) s)
      else f.signal_groups g }

def File.setWaiters (f : File) (signal_id : Nat) (g : Waiter → Waiter) : File :=
  { f with waiters := f.waiters.map (fun w => if w.signal_id = signal_id then g w else w) }

/-! ## The operations -/

/-- What the first check of hfastrpc_dspsignal_wait decides. -/
inductive Check
  | returns (err : Option Errno)
  | blocks
  deriving DecidableEq, Repr

/-- hfastrpc_dspsignal_wait up to the completion. -/
def hfastrpc_dspsignal_wait_check (f : File) (signal_id : Nat) : Check :=
  if DSPSIGNAL_NUM_SIGNALS ≤ signal_id then .returns (some .EINVAL)
  else
    match f.signal signal_id with
    | none => .returns (some .ENOENT)
    | some s =>
      if s.state = .UNUSED then .returns (some .ENOENT)
      else if s.state ≠ .PENDING then
        if s.state = .CANCELED ∨ s.state = .UNUSED then .returns (some .EINTR) else .returns none
      else .blocks

/-- hfastrpc_dspsignal_wait after the completion: the state that it leaves, and its result. -/
def hfastrpc_dspsignal_wait_reread (s : Dspsignal) : Dspsignal × Option Errno :=
  if s.state = .SIGNALED then ({ s with state := .PENDING }, none)
  else if s.state = .CANCELED ∨ s.state = .UNUSED then (s, some .EINTR)
  else (s, none)

/-- A group of signals as hfastrpc_dspsignal_create allocates it. -/
def newGroup : Nat → Dspsignal := fun _ => ⟨init_completion, .UNUSED⟩

/-- signal_create_mutex is held, so no other call allocates the group in between, and every
other call takes a missing group for a group of unused signals. -/
def hfastrpc_dspsignal_create (f : File) (signal_id : Nat) (alloc_ok : Bool) :
    File × Option Errno :=
  if DSPSIGNAL_NUM_SIGNALS ≤ signal_id then (f, some .EINVAL)
  else
    let g := signal_id / DSPSIGNAL_GROUP_SIZE
    let i := signal_id % DSPSIGNAL_GROUP_SIZE
    if f.signal_groups g = none ∧ alloc_ok = false then (f, some .ENOMEM)
    else
      let group := (f.signal_groups g).getD newGroup
      if (group i).state ≠ .UNUSED then (f, some .EBUSY)
      else
        ({ f with
            signal_groups := set f.signal_groups g
              (some (set group i ⟨reinit_completion (group i).comp, .PENDING⟩))
            received := set f.received signal_id 0
            zeros := set f.zeros signal_id 0 }, none)

/-- The waiters of a signal that is opened for all. -/
def Waiter.hitBy (w : Waiter) : Waiter := { w with hit := true }

def hfastrpc_dspsignal_destroy (f : File) (signal_id : Nat) : File × Option Errno :=
  if DSPSIGNAL_NUM_SIGNALS ≤ signal_id then (f, some .EINVAL)
  else
    match f.signal signal_id with
    | none => (f, some .ENOENT)
    | some s =>
      if s.state = .UNUSED then (f, some .ENOENT)
      else
        ((f.setSignal signal_id ⟨complete_all s.comp, .UNUSED⟩).setWaiters signal_id
          Waiter.hitBy, none)

def hfastrpc_dspsignal_cancel_wait (f : File) (signal_id : Nat) : File × Option Errno :=
  if DSPSIGNAL_NUM_SIGNALS ≤ signal_id then (f, some .EINVAL)
  else
    match f.signal signal_id with
    | none => (f, some .ENOENT)
    | some s =>
      if s.state = .UNUSED then (f, some .ENOENT)
      else if s.state ≠ .CANCELED then
        ((f.setSignal signal_id ⟨complete_all s.comp, .CANCELED⟩).setWaiters signal_id
          Waiter.hitBy, none)
      else (f, none)

/-- What handle_remote_signal does to the session it has found. -/
def receive (f : File) (signal_id : Nat) : File :=
  match f.signal signal_id with
  | none => f
  | some s =>
    if s.state = .PENDING ∨ s.state = .SIGNALED then
      { f.setSignal signal_id ⟨complete s.comp, .SIGNALED⟩ with
        received := set f.received signal_id (f.received signal_id + 1) }
    else f

/-! ## The steps of a session -/

/-- A step of one of the five calls. -/
inductive Op
  | create (signal_id : Nat) (alloc_ok : Bool)
  /-- hfastrpc_dspsignal_wait up to the completion. -/
  | wait (tid signal_id : Nat) (timeout_usec : BitVec 32)
  /-- The three ways out of the completion. -/
  | take (tid : Nat)
  | timeout (tid : Nat)
  | interrupt (tid : Nat)
  /-- hfastrpc_dspsignal_wait after the completion. -/
  | reread (tid : Nat)
  | cancel_wait (signal_id : Nat)
  | destroy (signal_id : Nat)
  deriving DecidableEq, Repr

/-- A wait returns. -/
def File.finish (f : File) (w : Waiter) (err : Option Errno) : File :=
  { f with
    waiters := remove Waiter.tid f.waiters w.tid
    zeros := if err = none then set f.zeros w.signal_id (f.zeros w.signal_id + 1) else f.zeros
    returns := ⟨w, err⟩ :: f.returns }

/-- A wait that finds the signal pending. -/
def newWaiter (tid signal_id : Nat) (timeout_usec : BitVec 32) : Waiter :=
  ⟨tid, signal_id, timeout_usec, false, false⟩

/-- A step of the waiter with the thread id `tid`, on the signal that it waits for. -/
def File.onWaiter (f : File) (tid : Nat) (woken : Bool) (g : Waiter → Dspsignal → Option File) :
    Option File :=
  match lookup Waiter.tid f.waiters tid with
  | none => none
  | some w =>
    match f.signal w.signal_id with
    | none => none
    | some s => if w.woken = woken then g w s else none

/-- The waiter leaves the completion. -/
def Waiter.wake (w : Waiter) : Waiter := { w with woken := true }

def File.op (f : File) : Op → Option File
  | .create signal_id alloc_ok => some (hfastrpc_dspsignal_create f signal_id alloc_ok).1
  | .wait tid signal_id timeout_usec =>
    if (lookup Waiter.tid f.waiters tid).isSome then none
    else
      let w := newWaiter tid signal_id timeout_usec
      match hfastrpc_dspsignal_wait_check f signal_id with
      | .returns err => some (f.finish w err)
      | .blocks => some { f with waiters := w :: f.waiters }
  | .take tid => f.onWaiter tid false fun w s =>
    (take s.comp).map fun c =>
      { f.setSignal w.signal_id { s with comp := c } with
        waiters := update Waiter.tid f.waiters tid Waiter.wake }
  | .timeout tid => f.onWaiter tid false fun w s =>
    if s.comp.done = 0 ∧ w.timeout_usec ≠ 0xffffffff then some (f.finish w (some .ETIMEDOUT))
    else none
  | .interrupt tid => f.onWaiter tid false fun w s =>
    if s.comp.done = 0 then some (f.finish w (some .ERESTARTSYS)) else none
  | .reread tid => f.onWaiter tid true fun w s =>
    let r := hfastrpc_dspsignal_wait_reread s
    some ((f.setSignal w.signal_id r.1).finish w r.2)
  | .cancel_wait signal_id => some (hfastrpc_dspsignal_cancel_wait f signal_id).1
  | .destroy signal_id => some (hfastrpc_dspsignal_destroy f signal_id).1

/-! ## The machine -/

/-- `vfa`: the sessions of the driver. -/
structure Apps where
  drivers : List File

def init : Apps := ⟨[]⟩

def Apps.file (s : Apps) (v : Nat) : Option File := lookup File.ptr s.drivers v

def Apps.setFile (s : Apps) (v : Nat) (f : File) : Apps :=
  { s with drivers := update File.ptr s.drivers v (fun _ => f) }

/-- The session that handle_remote_signal finds. -/
def Apps.receiver (s : Apps) (pid : BitVec 32) (domain : Int) : Option File :=
  s.drivers.find? (fun f => f.upid == pid && f.domain == domain)

/-- The process id and the signal of a message of the DSP. -/
def pidOf (msg : BitVec 64) : BitVec 32 := (msg >>> 32).setWidth 32
def signalOf (msg : BitVec 64) : Nat := (msg.setWidth 32).toNat

def handle_remote_signal (s : Apps) (msg : BitVec 64) (domain : Int) : Apps :=
  if DSPSIGNAL_NUM_SIGNALS ≤ signalOf msg then s
  else
    match s.receiver (pidOf msg) domain with
    | none => s
    | some f => s.setFile f.ptr (receive f (signalOf msg))

inductive Act
  | open_file (v : Nat)
  /-- GETINFO gives the session its process id and its domain. -/
  | bind (v : Nat) (upid : BitVec 32) (domain : Int)
  | release (v : Nat)
  | ioctl (v : Nat) (op : Op)
  | remote (msg : BitVec 64) (domain : Int)
  deriving DecidableEq, Repr

def step (s : Apps) : Act → Option Apps
  | .open_file v => if (s.file v).isSome then none else some ⟨hfastrpc_file_alloc v :: s.drivers⟩
  | .bind v upid domain => (s.file v).map fun f => s.setFile v { f with upid, domain }
  -- a file is released after the last call on it has returned
  | .release v => (s.file v).bind fun f =>
    if f.waiters = [] then some ⟨remove File.ptr s.drivers v⟩ else none
  | .ioctl v op => (s.file v).bind fun f => (f.op op).map (s.setFile v)
  | .remote msg domain => some (handle_remote_signal s msg domain)

/-! ## What the laws see of a session -/

/-- The signals by their ids, with the waits. A missing group is a group of unused signals. -/
structure View where
  slot : Nat → Dspsignal
  waiters : List Waiter
  received : Nat → Nat
  zeros : Nat → Nat
  returns : List Return

def File.view (f : File) : View :=
  ⟨fun signal_id => (f.signal signal_id).getD ⟨init_completion, .UNUSED⟩, f.waiters, f.received,
    f.zeros, f.returns⟩

namespace View

def create (v : View) (i : Nat) : View :=
  { v with
    slot := set v.slot i ⟨⟨0⟩, .PENDING⟩
    received := set v.received i 0
    zeros := set v.zeros i 0 }

def finish (v : View) (w : Waiter) (err : Option Errno) : View :=
  { v with
    waiters := remove Waiter.tid v.waiters w.tid
    zeros := if err = none then set v.zeros w.signal_id (v.zeros w.signal_id + 1) else v.zeros
    returns := ⟨w, err⟩ :: v.returns }

def take (v : View) (w : Waiter) (c : Completion) : View :=
  { v with
    slot := set v.slot w.signal_id ⟨c, (v.slot w.signal_id).state⟩
    waiters := update Waiter.tid v.waiters w.tid Waiter.wake }

def reread (v : View) (w : Waiter) : View :=
  let r := hfastrpc_dspsignal_wait_reread (v.slot w.signal_id)
  finish { v with slot := set v.slot w.signal_id r.1 } w r.2

def setWaiters (v : View) (i : Nat) (g : Waiter → Waiter) : View :=
  { v with waiters := v.waiters.map (fun w => if w.signal_id = i then g w else w) }

/-- The signal is opened for all: it is cancelled or destroyed. -/
def close (v : View) (i : Nat) (st : State) : View :=
  setWaiters { v with slot := set v.slot i ⟨⟨UINT_MAX⟩, st⟩ } i Waiter.hitBy

def receive (v : View) (i : Nat) : View :=
  { v with
    slot := set v.slot i ⟨complete (v.slot i).comp, .SIGNALED⟩
    received := set v.received i (v.received i + 1) }

end View

/-- The ways in which a step of a session can change what the laws see of it. -/
inductive Effect (v : View) : Op → View → Prop
  | same (op : Op) : Effect v op v
  | create {i : Nat} {alloc_ok : Bool} (h : (v.slot i).state = .UNUSED) :
      Effect v (.create i alloc_ok) (v.create i)
  | block {tid i : Nat} {t : BitVec 32} (hnew : lookup Waiter.tid v.waiters tid = none)
      (h : (v.slot i).state = .PENDING) :
      Effect v (.wait tid i t) { v with waiters := newWaiter tid i t :: v.waiters }
  | returns {tid i : Nat} {t : BitVec 32} {err : Option Errno}
      (hnew : lookup Waiter.tid v.waiters tid = none)
      (h : err = none → (v.slot i).state = .SIGNALED) :
      Effect v (.wait tid i t) (v.finish (newWaiter tid i t) err)
  | take {tid : Nat} {w : Waiter} {c : Completion} (hw : lookup Waiter.tid v.waiters tid = some w)
      (hno : w.woken = false) (hc : completion.take (v.slot w.signal_id).comp = some c) :
      Effect v (.take tid) (v.take w c)
  | give_up {op : Op} {tid : Nat} {w : Waiter} (e : Errno)
      (hw : lookup Waiter.tid v.waiters tid = some w) (hno : w.woken = false) :
      Effect v op (v.finish w (some e))
  | reread {tid : Nat} {w : Waiter} (hw : lookup Waiter.tid v.waiters tid = some w)
      (hyes : w.woken = true) : Effect v (.reread tid) (v.reread w)
  | cancel {i : Nat} (h : (v.slot i).state ≠ .UNUSED) :
      Effect v (.cancel_wait i) (v.close i .CANCELED)
  | destroy {i : Nat} (h : (v.slot i).state ≠ .UNUSED) :
      Effect v (.destroy i) (v.close i .UNUSED)

section groups

variable {f : File} {i : Nat} {s : Dspsignal}

theorem set_self {α : Type} (t : Nat → α) (i : Nat) (a : α) : set t i a i = a := if_pos rfl

theorem set_ne {α : Type} {t : Nat → α} {i j : Nat} {a : α} (h : j ≠ i) : set t i a j = t j :=
  if_neg h

/-- Two signals in one place of one group are one signal. -/
theorem same_place {i j g : Nat} (hd : j / g = i / g) (hm : j % g = i % g) : j = i := by
  rw [← Nat.div_add_mod j g, ← Nat.div_add_mod i g, hd, hm]

theorem slot_of_signal (h : f.signal i = some s) : (f.view).slot i = s := by
  show (f.signal i).getD _ = s
  rw [h]
  rfl

theorem slot_of_none (h : f.signal i = none) :
    (f.view).slot i = ⟨init_completion, .UNUSED⟩ := by
  show (f.signal i).getD _ = _
  rw [h]
  rfl

/-- A write of a signal in its group is seen at its id, and at no other. -/
theorem slot_setSignal (h : f.signal i = some s) (s' : Dspsignal) :
    ((f.setSignal i s').view).slot = set (f.view).slot i s' := by
  obtain ⟨group, hg, _⟩ := Option.map_eq_some_iff.mp h
  funext j
  by_cases hj : j = i
  · subst hj
    rw [set_self]
    simp [File.view, File.signal, File.setSignal, hg, set]
  · rw [set_ne hj]
    by_cases hd : j / DSPSIGNAL_GROUP_SIZE = i / DSPSIGNAL_GROUP_SIZE
    · have hm : j % DSPSIGNAL_GROUP_SIZE ≠ i % DSPSIGNAL_GROUP_SIZE :=
        fun hm => hj (same_place hd hm)
      simp [File.view, File.signal, File.setSignal, hd, hg, set, hm]
    · simp [File.view, File.signal, File.setSignal, hd]

theorem view_setSignal (h : f.signal i = some s) (s' : Dspsignal) :
    (f.setSignal i s').view = { f.view with slot := set (f.view).slot i s' } := by
  rw [← slot_setSignal h s']
  rfl

end groups

section effects

variable {f f' : File}

theorem create_effect (i : Nat) (alloc_ok : Bool) :
    Effect (f.view) (.create i alloc_ok) ((hfastrpc_dspsignal_create f i alloc_ok).1.view) := by
  unfold hfastrpc_dspsignal_create
  dsimp only
  split
  · exact .same _
  · split
    · exact .same _
    · split
      · exact .same _
      · rename_i _ _ hst
        -- the place in the group is the slot, with or without the group
        have hslot : (f.view).slot i =
            ((f.signal_groups (i / DSPSIGNAL_GROUP_SIZE)).getD newGroup)
              (i % DSPSIGNAL_GROUP_SIZE) := by
          show ((f.signal_groups (i / DSPSIGNAL_GROUP_SIZE)).map _).getD _ = _
          rcases f.signal_groups (i / DSPSIGNAL_GROUP_SIZE) with _ | group <;> rfl
        have hun : ((f.view).slot i).state = .UNUSED := by
          rw [hslot]
          simpa using hst
        convert @Effect.create (f.view) i alloc_ok hun using 1
        unfold File.view View.create
        congr 1
        funext j
        by_cases hj : j = i
        · subst hj
          rw [set_self]
          simp [File.signal, set_self, reinit_completion]
        · rw [set_ne hj]
          by_cases hd : j / DSPSIGNAL_GROUP_SIZE = i / DSPSIGNAL_GROUP_SIZE
          · have hm : j % DSPSIGNAL_GROUP_SIZE ≠ i % DSPSIGNAL_GROUP_SIZE :=
              fun hm => hj (same_place hd hm)
            simp only [File.signal, hd, set_self, Option.map_some, Option.getD_some, set_ne hm]
            rcases f.signal_groups (i / DSPSIGNAL_GROUP_SIZE) with _ | group <;> rfl
          · simp only [File.signal, set_ne hd]

theorem cancel_wait_effect (i : Nat) :
    Effect (f.view) (.cancel_wait i) ((hfastrpc_dspsignal_cancel_wait f i).1.view) := by
  unfold hfastrpc_dspsignal_cancel_wait
  split
  · exact .same _
  · split
    · exact .same _
    · rename_i s hs
      split
      · exact .same _
      · rename_i hst
        split
        · have := Effect.cancel (v := f.view) (i := i) (by rw [slot_of_signal hs]; exact hst)
          unfold View.close at this
          rw [← view_setSignal hs] at this
          exact this
        · exact .same _

theorem destroy_effect (i : Nat) :
    Effect (f.view) (.destroy i) ((hfastrpc_dspsignal_destroy f i).1.view) := by
  unfold hfastrpc_dspsignal_destroy
  split
  · exact .same _
  · split
    · exact .same _
    · rename_i s hs
      split
      · exact .same _
      · rename_i hst
        have := Effect.destroy (v := f.view) (i := i) (by rw [slot_of_signal hs]; exact hst)
        unfold View.close at this
        rw [← view_setSignal hs] at this
        exact this

/-- The first check of a wait lets only a pending signal through, and returns 0 only for a
signaled one. -/
theorem wait_check_cases (f : File) (i : Nat) :
    (hfastrpc_dspsignal_wait_check f i = .blocks ∧ ((f.view).slot i).state = .PENDING) ∨
    ∃ err, hfastrpc_dspsignal_wait_check f i = .returns err ∧
      (err = none → ((f.view).slot i).state = .SIGNALED) := by
  unfold hfastrpc_dspsignal_wait_check
  split
  · exact Or.inr ⟨_, rfl, fun h => by cases h⟩
  · split
    · exact Or.inr ⟨_, rfl, fun h => by cases h⟩
    · rename_i s hs
      rw [slot_of_signal hs]
      rcases hst : s.state with _ | _ | _ | _
      · exact Or.inr ⟨some .ENOENT, by simp, fun h => by cases h⟩
      · exact Or.inl ⟨by simp, rfl⟩
      · exact Or.inr ⟨none, by simp, fun _ => rfl⟩
      · exact Or.inr ⟨some .EINTR, by simp, fun h => by cases h⟩

theorem onWaiter_some {tid : Nat} {woken : Bool} {g : Waiter → Dspsignal → Option File}
    (h : f.onWaiter tid woken g = some f') :
    ∃ w s, lookup Waiter.tid f.waiters tid = some w ∧ f.signal w.signal_id = some s ∧
      w.woken = woken ∧ g w s = some f' := by
  unfold File.onWaiter at h
  split at h
  · cases h
  · rename_i w hw
    split at h
    · cases h
    · rename_i s hs
      split at h
      · exact ⟨w, s, hw, hs, ‹_›, h⟩
      · cases h

/-- What the laws see of a step is one of the effects. -/
theorem op_effect {op : Op} (h : f.op op = some f') : Effect (f.view) op (f'.view) := by
  cases op with
  | create i alloc_ok =>
    cases h
    exact create_effect i alloc_ok
  | cancel_wait i =>
    cases h
    exact cancel_wait_effect i
  | destroy i =>
    cases h
    exact destroy_effect i
  | wait tid i t =>
    unfold File.op at h
    dsimp only at h
    split at h
    · cases h
    · rename_i hnew
      have hnew : lookup Waiter.tid f.waiters tid = none := by simpa using hnew
      rcases wait_check_cases f i with ⟨hb, hst⟩ | ⟨err, hb, hst⟩
      · rw [hb] at h
        cases h
        exact .block hnew hst
      · rw [hb] at h
        cases h
        exact .returns hnew hst
  | take tid =>
    obtain ⟨w, s, hw, hs, hwoken, h⟩ := onWaiter_some h
    obtain ⟨c, hc, rfl⟩ := Option.map_eq_some_iff.mp h
    have htid : w.tid = tid := key_of_lookup hw
    subst htid
    have := Effect.take (v := f.view) hw hwoken (c := c) (by rw [slot_of_signal hs]; exact hc)
    unfold View.take at this
    rw [slot_of_signal hs] at this
    convert this using 1
    rw [← slot_setSignal hs]
    rfl
  | timeout tid =>
    obtain ⟨w, s, hw, hs, hwoken, h⟩ := onWaiter_some h
    split at h
    · cases h
      exact .give_up _ hw hwoken
    · cases h
  | interrupt tid =>
    obtain ⟨w, s, hw, hs, hwoken, h⟩ := onWaiter_some h
    split at h
    · cases h
      exact .give_up _ hw hwoken
    · cases h
  | reread tid =>
    obtain ⟨w, s, hw, hs, hwoken, h⟩ := onWaiter_some h
    cases h
    have := Effect.reread (v := f.view) hw hwoken
    unfold View.reread at this
    rw [slot_of_signal hs] at this
    dsimp only at this
    rw [← view_setSignal hs] at this
    exact this

theorem receive_effect (f : File) (i : Nat) :
    (receive f i).view = f.view ∨
    (((f.view).slot i).state = .PENDING ∨ ((f.view).slot i).state = .SIGNALED) ∧
      (receive f i).view = (f.view).receive i := by
  unfold receive
  split
  · exact Or.inl rfl
  · rename_i s hs
    split
    · rename_i hst
      refine Or.inr ⟨by rw [slot_of_signal hs]; exact hst, ?_⟩
      unfold View.receive
      rw [slot_of_signal hs, ← slot_setSignal hs]
      rfl
    · exact Or.inl rfl

end effects

/-! ## Laws of all the sessions -/

section lift

variable {C : View → Op → Prop} {R : View → Nat → Prop}

/-- A condition on the steps of the sessions, and on the signals that they receive. -/
def EachStep (C : View → Op → Prop) (R : View → Nat → Prop) (s : Apps) : Act → Prop
  | .ioctl v op => ∀ f, s.file v = some f → C (f.view) op
  | .remote msg domain => ∀ f, s.receiver (pidOf msg) domain = some f → R (f.view) (signalOf msg)
  | .open_file _ | .bind _ _ _ | .release _ => True

def OfAll (I : View → Prop) (s : Apps) : Prop := ∀ f ∈ s.drivers, I (f.view)

theorem OfAll.setFile {I : View → Prop} {s : Apps} (h : OfAll I s) (v : Nat) {f : File}
    (hf : I (f.view)) : OfAll I (s.setFile v f) := by
  intro g hg
  rcases mem_update.mp hg with ⟨hg, _⟩ | ⟨_, _, _, rfl⟩
  · exact h g hg
  · exact hf

/-- A law of a session that a new session has and each effect keeps is kept by every step. -/
theorem step_keeps {I : View → Prop} (hnew : ∀ v, I ((hfastrpc_file_alloc v).view))
    (hop : ∀ {v op v'}, I v → C v op → Effect v op v' → I v')
    (hrecv : ∀ {v i}, I v → R v i → (v.slot i).state = .PENDING ∨ (v.slot i).state = .SIGNALED →
      I (v.receive i)) (s : Apps) (a : Act) (t : Apps) (h : OfAll I s)
    (hc : EachStep C R s a) (ht : step s a = some t) : OfAll I t := by
  cases a with
  | open_file v =>
    simp only [step] at ht
    split at ht
    · cases ht
    · cases ht
      intro f hf
      rcases List.mem_cons.mp hf with rfl | hf
      · exact hnew v
      · exact h f hf
  | bind v upid domain =>
    obtain ⟨f, hf, rfl⟩ := Option.map_eq_some_iff.mp ht
    exact h.setFile v (h f (mem_of_lookup hf))
  | release v =>
    obtain ⟨f, hf, ht⟩ := Option.bind_eq_some_iff.mp ht
    split at ht
    · cases ht
      intro g hg
      exact h g (mem_remove.mp hg).1
    · cases ht
  | ioctl v op =>
    obtain ⟨f, hf, ht⟩ := Option.bind_eq_some_iff.mp ht
    obtain ⟨f', hf', rfl⟩ := Option.map_eq_some_iff.mp ht
    exact h.setFile v (hop (h f (mem_of_lookup hf)) (hc f hf) (op_effect hf'))
  | remote msg domain =>
    cases ht
    unfold handle_remote_signal
    split
    · exact h
    · split
      · exact h
      · rename_i f hf
        apply h.setFile
        have hI : I (f.view) := h f (List.mem_of_find?_eq_some hf)
        rcases receive_effect f (signalOf msg) with he | ⟨hst, he⟩
        · rw [he]
          exact hI
        · rw [he]
          exact hrecv hI (hc f hf) hst

end lift

/-! ## What both laws use -/

/-- A signal is not created while a waiter that has left the completion of the last signal
with this id has not looked at the state. -/
def CreatesAfterAll (v : View) : Op → Prop
  | .create i _ => (v.slot i).state = .UNUSED →
    ∀ w ∈ v.waiters, w.signal_id = i → w.woken = false
  | _ => True

/-- A change of a waiter that leaves its thread, what it waits for and how far it is. -/
def KeepsPlace (g : Waiter → Waiter) : Prop :=
  ∀ w, (g w).tid = w.tid ∧ (g w).signal_id = w.signal_id ∧ (g w).woken = w.woken

theorem keeps_place_of {i : Nat} {g : Waiter → Waiter} (hg : KeepsPlace g) :
    KeepsPlace (fun w => if w.signal_id = i then g w else w) := by
  intro w
  dsimp only
  split
  · exact hg w
  · exact ⟨rfl, rfl, rfl⟩

theorem unique_map {l : List Waiter} (hu : Unique Waiter.tid l) {g : Waiter → Waiter}
    (hg : KeepsPlace g) : Unique Waiter.tid (l.map g) := by
  unfold keyed.Unique
  rw [List.map_map, show Waiter.tid ∘ g = Waiter.tid from funext (fun w => (hg w).1)]
  exact hu

/-- What the second look at a signal does: 0 only for a signal that is pending or signaled,
and it is pending then. -/
theorem reread_cases (s : Dspsignal) :
    ((s.state = .PENDING ∨ s.state = .SIGNALED) ∧
      hfastrpc_dspsignal_wait_reread s = (⟨s.comp, .PENDING⟩, none)) ∨
    (¬ (s.state = .PENDING ∨ s.state = .SIGNALED) ∧
      hfastrpc_dspsignal_wait_reread s = (s, some .EINTR)) := by
  obtain ⟨c, st⟩ := s
  cases st with
  | UNUSED => exact Or.inr ⟨by simp, rfl⟩
  | PENDING => exact Or.inl ⟨by simp, rfl⟩
  | SIGNALED => exact Or.inl ⟨by simp, rfl⟩
  | CANCELED => exact Or.inr ⟨by simp, rfl⟩

theorem set_eq_self {α : Type} (t : Nat → α) (i : Nat) : set t i (t i) = t := by
  funext j
  by_cases hj : j = i
  · subst hj
    exact set_self t j _
  · exact set_ne hj

end virtual_fastrpc.dsp_signals
