-- The sessions of the two drivers: how GETINFO and the session info bind a
-- session to a domain, how INIT opens a process on the DSP, what the drivers
-- keep of the capabilities of a domain, and what the release of a session
-- closes. Each request is one step.
import PlatformKernel.Lib.Runs
import PlatformKernel.Lib.Keyed
import PlatformKernel.AdsprpcShared

namespace virtual_fastrpc.sessions

open keyed step_runs

/-! ## The constants -/

/-- What the drivers take from adsprpc_shared.h, from the device and from the system. -/
structure Config where
  driver : Driver
  num_channels : Nat
  CDSP_DOMAIN_ID : Nat
  CDSP1_DOMAIN_ID : Nat
  FASTRPC_MAX_ATTRIBUTES : Nat
  FASTRPC_MAX_DSP_ATTRIBUTES : Nat
  ASYNC_FASTRPC_CAP : Nat
  FASTRPC_MODE_UNSIGNED_MODULE : BitVec 32
  DEFAULT_UNUSED : Nat
  USERPD : Nat
  MAX_PD_TYPE : Nat
  max_sess_per_proc : Nat
  signed_pd_control : Bool
  debugfs_root : Bool

def PERF_V2_DSP_SUPPORT : Nat := 128
def UNSIGNED_PD_SUPPORT : Nat := 1
def PERF_CAPABILITY_SUPPORT : BitVec 32 := 1 <<< 1
def KERNEL_ERROR_CODE_V1_SUPPORT : BitVec 32 := 1
def DSPSIGNAL_SUPPORT : BitVec 32 := 1
def MAX_FRPC_TGID : Nat := 256
def INIT_FILELEN_MAX : Int := 2 * 1024 * 1024
def INIT_MEMLEN_MAX : Int := 8 * 1024 * 1024

def kernel_capabilities : Driver → List (BitVec 32)
  | .hybrid => [PERF_CAPABILITY_SUPPORT, KERNEL_ERROR_CODE_V1_SUPPORT, 0, DSPSIGNAL_SUPPORT]
  | .virtio => [PERF_CAPABILITY_SUPPORT]

/-- The two device nodes. -/
inductive Minor
  | MINOR_NUM_DEV | MINOR_NUM_SECURE_DEV
  deriving DecidableEq, Repr

/-- `flags` of `struct fastrpc_ioctl_init`. -/
inductive InitFlags
  | FASTRPC_INIT_CREATE | FASTRPC_INIT_CREATE_STATIC | FASTRPC_INIT_ATTACH
  | FASTRPC_INIT_ATTACH_SENSORS | other
  deriving DecidableEq, Repr

/-- A failed VERIFY leaves -1, and the backend and the transport have errors of their own. -/
inductive Errno
  | VERIFY | EBADR | EUSERS | ENOMEM | EACCES | ECHRNG | EOVERFLOW | ECONNREFUSED | ENOTTY | EINVAL
  | EFAULT | EBADE | transport | backend
  deriving DecidableEq, Repr

/-! ## The state -/

structure Channel where
  secure : Bool
  unsigned_support : Bool
  /-- The two fields of `dsp_cap_kernel`. -/
  is_cached : Bool
  dsp_attributes : Nat → BitVec 32
  ssrcount : Nat
  /-- `subsystemstate` is `SUBSYSTEM_UP`. -/
  subsystem_up : Bool

/-- A session. The last field is for the laws only: the replies with result 0 to its OPEN
messages, each with its channel id and whether the message asked for an unsigned PD. -/
structure File where
  ptr : Nat
  dev_minor : Minor
  tgid_open : Int
  tgid : Int
  tgid_frpc : Int
  untrusted_process : Bool
  debug_buf_alloced_attempted : Bool
  domain : Int
  cid : Int
  ssrcount : Nat
  sessionid : Nat
  multi_session_support : Bool
  set_session_info : Bool
  is_unsigned_pd : Bool
  dsp_proc_init : Bool
  opened : List (Int × Bool)
  deriving DecidableEq, Repr

/-- An OPEN message, with the marks of its session and the flags of its channel when it was
sent. -/
structure OpenMsg where
  domain : Int
  attrs : BitVec 32
  untrusted_process : Bool
  dev_minor : Minor
  secure : Bool
  unsigned_support : Bool
  deriving DecidableEq, Repr

/-- A session that was released: the channel ids of the processes that the backend opened for
it, and of those that it was told to close. -/
structure Released where
  opened : List Int
  closed : List Int
  deriving DecidableEq, Repr

/-- A reply with result 0 to a GET_DSP_INFO message: the domain of the message, and the
capabilities. -/
structure CapReply where
  domain : Int
  dsp_caps : Nat → BitVec 32

/-- A capability that a user got. -/
structure Answer where
  domain : Nat
  attribute_ID : Nat
  capability : BitVec 32
  deriving DecidableEq, Repr

/-- The driver. The last four fields are for the laws only. -/
structure Apps where
  channel : Nat → Channel
  frpc_tgid_usage_array : Nat → Bool
  drivers : List File
  opens : List OpenMsg
  released : List Released
  replies : List CapReply
  answers : List Answer

def Apps.file (s : Apps) (v : Nat) : Option File := lookup File.ptr s.drivers v

def Apps.setFile (s : Apps) (v : Nat) (f : File) : Apps :=
  { s with drivers := update File.ptr s.drivers v (fun _ => f) }

def Apps.setChannel (s : Apps) (d : Nat) (g : Channel → Channel) : Apps :=
  { s with channel := fun e => if e = d then g (s.channel e) else s.channel e }

/-- What a request leaves: the driver, the session, and its result. No error is 0. -/
structure Done where
  apps : Apps
  file : File
  err : Option Errno

variable (c : Config)

/-- All channels are secure by default except CDSP and CDSP1. -/
def channel_init (i : Nat) : Channel :=
  let cdsp := decide (i = c.CDSP_DOMAIN_ID ∨ i = c.CDSP1_DOMAIN_ID)
  ⟨!cdsp, cdsp, false, fun _ => 0, 0, true⟩

def init : Apps := ⟨channel_init c, fun _ => false, [], [], [], [], []⟩

/-- The session after hfastrpc_file_alloc or vfastrpc_file_alloc, and the open of its node. -/
def file_alloc (v : Nat) (dev_minor : Minor) (tgid : Int) : File :=
  { ptr := v, dev_minor, tgid_open := tgid, tgid := 0, tgid_frpc := -1, untrusted_process := false,
    debug_buf_alloced_attempted := false, domain := -1, cid := -1, ssrcount := 0, sessionid := 0,
    multi_session_support := false, set_session_info := false, is_unsigned_pd := false,
    dsp_proc_init := false, opened := [] }

/-! ## GETINFO -/

def get_unique_hlos_process_id (s : Apps) : Option Nat :=
  (List.range' 1 (MAX_FRPC_TGID - 1)).find? (fun i => !s.frpc_tgid_usage_array i)

def put_unique_hlos_process_id (s : Apps) (f : File) : Apps :=
  if f.tgid_frpc = -1 then s
  else { s with frpc_tgid_usage_array := fun i =>
    if i = f.tgid_frpc.toNat then false else s.frpc_tgid_usage_array i }

/-- The calling process, and whether the debug name and the debugfs file can be made. -/
structure SetupEnv where
  tgid : Int
  debug_buf : Bool
  debugfs_file : Bool
  deriving DecidableEq, Repr

/-- hfastrpc_set_process_info and vfastrpc_set_process_info, which differ in their log texts
and in the size of the debug name. -/
def set_process_info (s : Apps) (f : File) (e : SetupEnv) : Done :=
  let f : File := { f with tgid := e.tgid }
  match get_unique_hlos_process_id s with
  | none => ⟨s, { f with tgid_frpc := -1 }, some .EUSERS⟩
  | some i =>
    let s := { s with
      frpc_tgid_usage_array := fun j => if j = i then true else s.frpc_tgid_usage_array j }
    let f : File := { f with
      tgid_frpc := i
      untrusted_process := f.untrusted_process || decide (e.tgid ≠ f.tgid_open) }
    if c.debugfs_root = false ∨ f.debug_buf_alloced_attempted = true then ⟨s, f, none⟩
    else if e.debug_buf = false then ⟨s, f, some .ENOMEM⟩
    else ⟨s, { f with debug_buf_alloced_attempted := e.debugfs_file }, none⟩

/-- The non-secure node may not use a secure channel without unsigned PDs. -/
def needs_secure_node (f : File) (chan : Channel) : Bool :=
  f.dev_minor == .MINOR_NUM_DEV && chan.secure && !chan.unsigned_support

def hfastrpc_get_info (s : Apps) (f : File) (domain : Nat) (e : SetupEnv) : Done :=
  if f.set_session_info then ⟨s, f, some .EBADR⟩
  else
    let f := { f with set_session_info := true }
    if c.num_channels ≤ domain then ⟨s, f, some .VERIFY⟩
    else
      let r := set_process_info c s f e
      match r.err with
      | some err => ⟨r.apps, r.file, some err⟩
      | none =>
        if r.file.domain = -1 then
          let chan := r.apps.channel domain
          if needs_secure_node r.file chan then ⟨r.apps, r.file, some .EACCES⟩
          else ⟨r.apps, { r.file with domain, cid := domain, ssrcount := chan.ssrcount }, none⟩
        else r

def vfastrpc_internal_get_info (s : Apps) (f : File) (domain : Nat) (e : SetupEnv) : Done :=
  if f.set_session_info then ⟨s, f, some .EBADR⟩
  else
    let r := set_process_info c s { f with set_session_info := true } e
    match r.err with
    | some err => ⟨r.apps, r.file, some err⟩
    | none =>
      if r.file.domain = -1 then
        if c.num_channels ≤ domain then ⟨r.apps, r.file, some .VERIFY⟩
        else if needs_secure_node r.file (r.apps.channel domain) then
          ⟨r.apps, r.file, some .EACCES⟩
        else ⟨r.apps, { r.file with domain }, none⟩
      else r

def get_info (s : Apps) (f : File) (domain : Nat) (e : SetupEnv) : Done :=
  match c.driver with
  | .hybrid => hfastrpc_get_info c s f domain e
  | .virtio => vfastrpc_internal_get_info c s f domain e

/-! ## The session info -/

/-- `struct fastrpc_proc_sess_info`. -/
structure SessInfo where
  domain_id : Nat
  session_id : Nat
  pd_type : Nat
  deriving DecidableEq, Repr

/-- The checks of the session info that come before any write but the untrusted mark. -/
def sess_info_bad (f : File) (i : SessInfo) : Bool :=
  !(decide (c.DEFAULT_UNUSED < i.pd_type) && decide (i.pd_type < c.MAX_PD_TYPE)) ||
  (f.untrusted_process && decide (i.pd_type ≠ c.USERPD)) ||
  decide (c.max_sess_per_proc ≤ i.session_id)

/-- The part that both functions share: from the untrusted mark to the copy of the session
info to the user. -/
def set_session_info_body (s : Apps) (f : File) (i : SessInfo) (e : SetupEnv) (copy_out : Bool) :
    Done :=
  let f := { f with
    untrusted_process := f.untrusted_process || decide (e.tgid ≠ f.tgid_open) }
  if sess_info_bad c f i then ⟨s, f, some .EBADR⟩
  else
    let r := get_info c s { f with sessionid := i.session_id, multi_session_support := true }
      i.domain_id e
    match r.err with
    | some err => ⟨r.apps, r.file, some err⟩
    | none => if copy_out then r else ⟨r.apps, r.file, some .VERIFY⟩

def hfastrpc_set_session_info (s : Apps) (f : File) (i : SessInfo) (e : SetupEnv)
    (copy_out : Bool) : Done :=
  set_session_info_body c s f i e copy_out

/-- The virtio driver asks first whether the session info is already set. -/
def vfastrpc_set_session_info (s : Apps) (f : File) (i : SessInfo) (e : SetupEnv)
    (copy_out : Bool) : Done :=
  if f.set_session_info then ⟨s, f, some .EBADR⟩
  else set_session_info_body c s f i e copy_out

def set_session_info (s : Apps) (f : File) (i : SessInfo) (e : SetupEnv) (copy_out : Bool) : Done :=
  match c.driver with
  | .hybrid => hfastrpc_set_session_info c s f i e copy_out
  | .virtio => vfastrpc_set_session_info c s f i e copy_out

/-! ## INIT -/

structure InitAttrs where
  flags : InitFlags
  attrs : BitVec 32
  filelen : Int
  memlen : Int
  deriving DecidableEq, Repr

/-- What became of an OPEN message. The reply is there when the waiter goes on, so the test
for a missing one never holds. -/
inductive OpenAnswer
  | no_memory
  | send_error
  | reply (result : BitVec 32) (cid : Int)
  deriving DecidableEq, Repr

/-- The answers of the transport layer and of the backend. -/
structure InitEnv where
  interrupt_ok : Bool
  transport_ok : Bool
  answer : OpenAnswer
  deriving DecidableEq, Repr

/-- The attributes ask for an unsigned PD. -/
def asks_unsigned (attrs : BitVec 32) : Bool := attrs &&& c.FASTRPC_MODE_UNSIGNED_MODULE != 0

def virt_fastrpc_open (s : Apps) (f : File) (attrs : BitVec 32) (a : OpenAnswer) : Done :=
  match a with
  | .no_memory => ⟨s, f, some .ENOMEM⟩
  | .send_error => ⟨s, f, some .transport⟩
  | .reply result cid =>
    let chan := s.channel f.domain.toNat
    let s := { s with opens :=
      ⟨f.domain, attrs, f.untrusted_process, f.dev_minor, chan.secure, chan.unsigned_support⟩
        :: s.opens }
    if result ≠ 0 then ⟨s, f, some .backend⟩
    else
      let f := { f with opened := (cid, asks_unsigned c attrs) :: f.opened }
      if cid < 0 then ⟨s, f, some .EINVAL⟩
      else ⟨s, { f with cid }, none⟩

/-- The check of both drivers at the start of INIT. -/
def pd_refused (chan : Channel) (f : File) (attrs : BitVec 32) : Bool :=
  if chan.unsigned_support && f.dev_minor == .MINOR_NUM_DEV then
    chan.secure && !asks_unsigned c attrs
  else !chan.unsigned_support && asks_unsigned c attrs

/-- hfastrpc_channel_open of a session that has a domain. -/
def hfastrpc_channel_open (s : Apps) (f : File) (e : InitEnv) : Done :=
  if e.interrupt_ok = false then ⟨s, f, some .transport⟩
  else if e.transport_ok = false then ⟨s, f, some .ECONNREFUSED⟩
  else
    let chan := s.channel f.domain.toNat
    if chan.subsystem_up = false then ⟨s, f, some .ECONNREFUSED⟩
    else ⟨s, { f with ssrcount := chan.ssrcount }, none⟩

/-- A session of the same process, with the same channel id and another type of PD. -/
def pd_type_clash (s : Apps) (f : File) : Bool :=
  s.drivers.any (fun g => g.ptr != f.ptr && g.tgid == f.tgid && g.cid == f.cid &&
    g.is_unsigned_pd != f.is_unsigned_pd)

/-- virt_fastrpc_open as both drivers end INIT with it. -/
def open_and_mark (s : Apps) (f : File) (attrs : BitVec 32) (a : OpenAnswer) : Done :=
  let r := virt_fastrpc_open c s f attrs a
  match r.err with
  | some err => ⟨r.apps, r.file, some err⟩
  | none => ⟨r.apps, { r.file with dsp_proc_init := true }, none⟩

def hfastrpc_init_process (s : Apps) (f : File) (u : InitAttrs) (e : InitEnv) : Done :=
  if f.domain < 0 ∨ c.num_channels ≤ f.domain then ⟨s, f, some .ECHRNG⟩
  else if pd_refused c (s.channel f.domain.toNat) f u.attrs then ⟨s, f, some .ECONNREFUSED⟩
  else
    let r := hfastrpc_channel_open s f e
    match r.err with
    | some err => ⟨r.apps, r.file, some err⟩
    | none =>
      let f := r.file
      match u.flags with
      | .FASTRPC_INIT_CREATE =>
        if f.untrusted_process && !asks_unsigned c u.attrs then ⟨s, f, some .ECONNREFUSED⟩
        else
          let f := { f with is_unsigned_pd := f.is_unsigned_pd || asks_unsigned c u.attrs }
          if pd_type_clash s f then ⟨s, f, some .ECONNREFUSED⟩
          else open_and_mark c s f u.attrs e.answer
      | .FASTRPC_INIT_CREATE_STATIC | .FASTRPC_INIT_ATTACH | .FASTRPC_INIT_ATTACH_SENSORS =>
        ⟨s, f, some .ECONNREFUSED⟩
      | .other => ⟨s, f, some .ENOTTY⟩

def vfastrpc_internal_init_process (s : Apps) (f : File) (u : InitAttrs) (e : InitEnv) : Done :=
  if f.domain < 0 ∨ c.num_channels ≤ f.domain then ⟨s, f, some .ECHRNG⟩
  else if pd_refused c (s.channel f.domain.toNat) f u.attrs then ⟨s, f, some .ECONNREFUSED⟩
  else
    match u.flags with
    | .FASTRPC_INIT_CREATE =>
      if (f.untrusted_process || c.signed_pd_control) && !asks_unsigned c u.attrs then
        ⟨s, f, some .ECONNREFUSED⟩
      else open_and_mark c s f u.attrs e.answer
    | .FASTRPC_INIT_CREATE_STATIC | .FASTRPC_INIT_ATTACH | .FASTRPC_INIT_ATTACH_SENSORS =>
      ⟨s, f, some .ECONNREFUSED⟩
    | .other => ⟨s, f, some .ENOTTY⟩

def init_process (s : Apps) (f : File) (u : InitAttrs) (e : InitEnv) : Done :=
  match c.driver with
  | .hybrid => hfastrpc_init_process c s f u e
  | .virtio => vfastrpc_internal_init_process c s f u e

def vfastrpc_init_ioctl (s : Apps) (f : File) (u : InitAttrs) (e : InitEnv) : Done :=
  if ¬ (0 ≤ u.filelen ∧ u.filelen < INIT_FILELEN_MAX) then ⟨s, f, some .VERIFY⟩
  else if ¬ (0 ≤ u.memlen ∧ u.memlen < INIT_MEMLEN_MAX) then ⟨s, f, some .VERIFY⟩
  else init_process c s f u e

/-! ## GET_DSP_INFO -/

/-- What became of a GET_DSP_INFO message. -/
inductive CapAnswer
  | no_memory
  | send_error
  | reply (result : BitVec 32) (dsp_caps : Nat → BitVec 32)

/-- The message asks for the domain of the session. A reply with result 0 gives the
capabilities. -/
def virt_fastrpc_get_dsp_info (s : Apps) (f : File) (a : CapAnswer) :
    Apps × Except Errno (Nat → BitVec 32) :=
  match a with
  | .no_memory => (s, .error .ENOMEM)
  | .send_error => (s, .error .transport)
  | .reply result dsp_caps =>
    if result ≠ 0 then (s, .error .backend)
    else ({ s with replies := ⟨f.domain, dsp_caps⟩ :: s.replies }, .ok dsp_caps)

/-- The two attributes that the virtio driver sets on purpose. -/
def as_cached (caps : Nat → BitVec 32) : Nat → BitVec 32 :=
  match c.driver with
  | .hybrid => caps
  | .virtio => fun i =>
    if i = PERF_V2_DSP_SUPPORT then 1 <<< 1 else if i = c.ASYNC_FASTRPC_CAP then 1 else caps i

/-- hfastrpc_get_info_from_kernel and vfastrpc_get_info_from_kernel, for a domain below
num_channels: their caller has checked it. -/
def get_info_from_kernel (s : Apps) (f : File) (domain attribute_ID : Nat) (a : CapAnswer) :
    Apps × Except Errno (BitVec 32) :=
  if c.FASTRPC_MAX_ATTRIBUTES ≤ attribute_ID then (s, .error .EOVERFLOW)
  else if c.FASTRPC_MAX_DSP_ATTRIBUTES ≤ attribute_ID then
    (s, .ok ((kernel_capabilities c.driver).getD
      (attribute_ID - c.FASTRPC_MAX_DSP_ATTRIBUTES) 0))
  else if (s.channel domain).is_cached = false then
    match virt_fastrpc_get_dsp_info s f a with
    | (s, .error err) => (s, .error err)
    | (s, .ok caps) =>
      let attributes := as_cached c caps
      (s.setChannel domain (fun chan =>
        { chan with
          unsigned_support := caps UNSIGNED_PD_SUPPORT != 0
          dsp_attributes := attributes
          is_cached := true }), .ok (attributes attribute_ID))
  else (s, .ok ((s.channel domain).dsp_attributes attribute_ID))

/-- The handler of GET_DSP_INFO after its copy from the user. -/
def vfastrpc_get_dsp_info (s : Apps) (f : File) (domain attribute_ID : Nat) (a : CapAnswer)
    (copy_out : Bool) : Apps × Option Errno :=
  if c.num_channels ≤ domain then (s, some .ECHRNG)
  else
    match get_info_from_kernel c s f domain attribute_ID a with
    | (s, .error err) => (s, some err)
    | (s, .ok capability) =>
      if copy_out then
        ({ s with answers := ⟨domain, attribute_ID, capability⟩ :: s.answers }, none)
      else (s, some .VERIFY)

/-! ## The release -/

/-- The part of hfastrpc_file_free and vfastrpc_file_free that is about the process on the DSP,
with a CLOSE message that can be sent. -/
def virt_fastrpc_close (f : File) : List Int :=
  if f.dsp_proc_init ∧ ¬ f.cid < 0 then [f.cid] else []

def file_free (s : Apps) (f : File) : Apps :=
  let s := put_unique_hlos_process_id s f
  { s with
    drivers := remove File.ptr s.drivers f.ptr
    released := ⟨f.opened.map Prod.fst, virt_fastrpc_close f⟩ :: s.released }

/-! ## The machine -/

/-- The requests that read or write these fields. -/
inductive Req
  | getinfo (copy_in : Bool) (domain : Nat) (e : SetupEnv) (copy_out : Bool)
  | sess_info (size_ok copy_in : Bool) (i : SessInfo) (e : SetupEnv) (copy_out : Bool)
  /-- SETMODE with FASTRPC_MODE_SESSION. -/
  | mode_session
  | init (copy_in : Bool) (u : InitAttrs) (e : InitEnv)
  | get_dsp_info (copy_in : Bool) (domain attribute_ID : Nat) (a : CapAnswer) (copy_out : Bool)

def setmode_session (f : File) : File :=
  if f.multi_session_support then f else { f with sessionid := 1 }

/-- vfastrpc_ioctl. -/
def vfastrpc_ioctl (s : Apps) (f : File) : Req → Done
  | .getinfo copy_in domain e copy_out =>
    if copy_in = false then ⟨s, f, some .EFAULT⟩
    else
      let r := get_info c s f domain e
      match r.err with
      | some err => ⟨r.apps, r.file, some err⟩
      | none => if copy_out then r else ⟨r.apps, r.file, some .EFAULT⟩
  | .sess_info size_ok copy_in i e copy_out =>
    if size_ok = false then ⟨s, f, some .EBADE⟩
    else if copy_in = false then ⟨s, f, some .VERIFY⟩
    else set_session_info c s f i e copy_out
  | .mode_session => ⟨s, setmode_session f, none⟩
  | .init copy_in u e =>
    if copy_in = false then ⟨s, f, some .EFAULT⟩ else vfastrpc_init_ioctl c s f u e
  | .get_dsp_info copy_in domain attribute_ID a copy_out =>
    if copy_in = false then ⟨s, f, some .VERIFY⟩
    else
      let r := vfastrpc_get_dsp_info c s f domain attribute_ID a copy_out
      ⟨r.1, f, r.2⟩

inductive Act
  | open_node (v : Nat) (dev_minor : Minor) (tgid : Int)
  | ioctl (v : Nat) (q : Req)
  | release (v : Nat)
  /-- The subsystem of a channel goes down, and comes up again. -/
  | ssr_shutdown (d : Nat)
  | ssr_powerup (d : Nat)

def step (s : Apps) : Act → Option Apps
  | .open_node v dev_minor tgid =>
    if (s.file v).isSome then none
    else some { s with drivers := file_alloc v dev_minor tgid :: s.drivers }
  | .ioctl v q => (s.file v).map fun f =>
    let r := vfastrpc_ioctl c s f q
    r.apps.setFile v r.file
  | .release v => (s.file v).map (file_free s)
  | .ssr_shutdown d => some (s.setChannel d (fun chan =>
    { chan with ssrcount := chan.ssrcount + 1, subsystem_up := false }))
  | .ssr_powerup d => some (s.setChannel d (fun chan => { chan with subsystem_up := true }))

theorem setChannel_self (s : Apps) (d : Nat) (g : Channel → Channel) :
    (s.setChannel d g).channel d = g (s.channel d) := if_pos rfl

theorem setChannel_ne {s : Apps} {d e : Nat} {g : Channel → Channel} (h : e ≠ d) :
    (s.setChannel d g).channel e = s.channel e := if_neg h

/-- Only the value at the channel matters. -/
theorem setChannel_congr {s : Apps} {d : Nat} {g k : Channel → Channel}
    (h : g (s.channel d) = k (s.channel d)) : s.setChannel d g = s.setChannel d k := by
  unfold Apps.setChannel
  congr 1
  funext e
  split
  · rename_i he
    rw [he]
    exact h
  · rfl

/-- A restart of a subsystem leaves the flags and the cache of its channel. -/
theorem channel_ssr (s : Apps) (d n : Nat) (up : Bool) (e : Nat) :
    ((s.setChannel d (fun chan => { chan with ssrcount := n, subsystem_up := up })).channel e) =
      { s.channel e with
        ssrcount := ((s.setChannel d (fun chan =>
          { chan with ssrcount := n, subsystem_up := up })).channel e).ssrcount
        subsystem_up := ((s.setChannel d (fun chan =>
          { chan with ssrcount := n, subsystem_up := up })).channel e).subsystem_up } := by
  by_cases hed : e = d
  · subst hed
    rw [setChannel_self]
  · rw [setChannel_ne hed]

/-- One choice of the constants, for the runs on fixed inputs. -/
def sampleConfig (d : Driver) : Config where
  driver := d
  num_channels := 5
  CDSP_DOMAIN_ID := 3
  CDSP1_DOMAIN_ID := 4
  FASTRPC_MAX_ATTRIBUTES := 260
  FASTRPC_MAX_DSP_ATTRIBUTES := 256
  ASYNC_FASTRPC_CAP := 9
  FASTRPC_MODE_UNSIGNED_MODULE := 8
  DEFAULT_UNUSED := 0
  USERPD := 7
  MAX_PD_TYPE := 9
  max_sess_per_proc := 4
  signed_pd_control := false
  debugfs_root := true

/-! ## What each request can do -/

section specs

variable {c} {s : Apps} {f : File}

/-- What GETINFO, the session info and SETMODE can do: they leave the channels and the other
sessions, and they bind a session to a domain at most once. -/
structure Setup (c : Config) (s : Apps) (f : File) (r : Done) : Prop where
  apps : ∃ usage, r.apps = { s with frpc_tgid_usage_array := usage }
  ptr : r.file.ptr = f.ptr
  dev_minor : r.file.dev_minor = f.dev_minor
  is_unsigned_pd : r.file.is_unsigned_pd = f.is_unsigned_pd
  dsp_proc_init : r.file.dsp_proc_init = f.dsp_proc_init
  opened : r.file.opened = f.opened
  info : f.set_session_info = true → r.file.set_session_info = true ∧ r.file.tgid = f.tgid ∧
    r.file.domain = f.domain ∧ r.file.cid = f.cid
  bound : (r.file.domain = f.domain ∧ r.file.cid = f.cid) ∨
    f.domain = -1 ∧ r.file.set_session_info = true ∧ ∃ d : Nat, d < c.num_channels ∧
      r.file.domain = d ∧ needs_secure_node f (s.channel d) = false ∧
      r.file.cid = match c.driver with | .hybrid => (d : Int) | .virtio => f.cid

theorem Setup.same {err : Option Errno} : Setup c s f ⟨s, f, err⟩ where
  apps := ⟨s.frpc_tgid_usage_array, rfl⟩
  ptr := rfl
  dev_minor := rfl
  is_unsigned_pd := rfl
  dsp_proc_init := rfl
  opened := rfl
  info := fun h => ⟨h, rfl, rfl, rfl⟩
  bound := Or.inl ⟨rfl, rfl⟩

/-- GETINFO has marked the session, and not bound it. -/
theorem Setup.unbound (hset : ¬ f.set_session_info = true) {usage : Nat → Bool} {tgid tf : Int}
    {u db : Bool} {err : Option Errno} :
    Setup c s f ⟨{ s with frpc_tgid_usage_array := usage },
      { f with
        set_session_info := true, tgid, tgid_frpc := tf, untrusted_process := u,
        debug_buf_alloced_attempted := db }, err⟩ where
  apps := ⟨usage, rfl⟩
  ptr := rfl
  dev_minor := rfl
  is_unsigned_pd := rfl
  dsp_proc_init := rfl
  opened := rfl
  info := fun h => absurd h hset
  bound := Or.inl ⟨rfl, rfl⟩

/-- The result does not matter to what a request can do. -/
theorem Setup.withErr {r : Done} (h : Setup c s f r) (err : Option Errno) :
    Setup c s f ⟨r.apps, r.file, err⟩ :=
  ⟨h.apps, h.ptr, h.dev_minor, h.is_unsigned_pd, h.dsp_proc_init, h.opened, h.info, h.bound⟩

/-- set_process_info writes the process of the session, and takes an id from the pool. -/
theorem set_process_info_spec (c : Config) (s : Apps) (f : File) (e : SetupEnv) :
    ∃ usage tgid_frpc untrusted debug err, set_process_info c s f e =
      ⟨{ s with frpc_tgid_usage_array := usage },
        { f with
          tgid := e.tgid, tgid_frpc, untrusted_process := untrusted,
          debug_buf_alloced_attempted := debug }, err⟩ := by
  unfold set_process_info
  dsimp only
  split
  · exact ⟨_, _, _, _, _, rfl⟩
  · split
    · exact ⟨_, _, _, _, _, rfl⟩
    · split
      · exact ⟨_, _, _, _, _, rfl⟩
      · exact ⟨_, _, _, _, _, rfl⟩

theorem hfastrpc_get_info_setup (hc : c.driver = .hybrid) (s : Apps) (f : File) (domain : Nat)
    (e : SetupEnv) : Setup c s f (hfastrpc_get_info c s f domain e) := by
  unfold hfastrpc_get_info
  split
  · exact .same
  · rename_i hset
    dsimp only
    split
    · exact .unbound hset
    · rename_i hdom
      obtain ⟨usage, tf, u, db, err, hspec⟩ :=
        set_process_info_spec c s { f with set_session_info := true } e
      rw [hspec]
      dsimp only
      split
      · exact .unbound hset
      · split
        · rename_i hfree
          split
          · exact .unbound hset
          · rename_i hnode
            refine ⟨⟨_, rfl⟩, rfl, rfl, rfl, rfl, rfl, fun h => absurd h hset, Or.inr ⟨hfree, rfl,
              domain, by omega, rfl, by simpa [needs_secure_node] using hnode, ?_⟩⟩
            rw [hc]
        · exact .unbound hset

theorem vfastrpc_internal_get_info_setup (hc : c.driver = .virtio) (s : Apps) (f : File)
    (domain : Nat) (e : SetupEnv) : Setup c s f (vfastrpc_internal_get_info c s f domain e) := by
  unfold vfastrpc_internal_get_info
  split
  · exact .same
  · rename_i hset
    obtain ⟨usage, tf, u, db, err, hspec⟩ :=
      set_process_info_spec c s { f with set_session_info := true } e
    rw [hspec]
    dsimp only
    split
    · exact .unbound hset
    · split
      · rename_i hfree
        split
        · exact .unbound hset
        · rename_i hdom
          split
          · exact .unbound hset
          · rename_i hnode
            refine ⟨⟨_, rfl⟩, rfl, rfl, rfl, rfl, rfl, fun h => absurd h hset, Or.inr ⟨hfree, rfl,
              domain, by omega, rfl, by simpa [needs_secure_node] using hnode, ?_⟩⟩
            rw [hc]
      · exact .unbound hset

theorem get_info_setup (c : Config) (s : Apps) (f : File) (domain : Nat) (e : SetupEnv) :
    Setup c s f (get_info c s f domain e) := by
  unfold get_info
  split
  · exact hfastrpc_get_info_setup ‹_› s f domain e
  · exact vfastrpc_internal_get_info_setup ‹_› s f domain e

theorem set_session_info_body_setup (c : Config) (s : Apps) (f : File) (i : SessInfo)
    (e : SetupEnv) (copy_out : Bool) :
    Setup c s f (set_session_info_body c s f i e copy_out) := by
  unfold set_session_info_body
  dsimp only
  split
  · exact ⟨⟨_, rfl⟩, rfl, rfl, rfl, rfl, rfl, fun h => ⟨h, rfl, rfl, rfl⟩, Or.inl ⟨rfl, rfl⟩⟩
  · have h : Setup c s f (get_info c s { f with
        untrusted_process := f.untrusted_process || decide (e.tgid ≠ f.tgid_open)
        sessionid := i.session_id, multi_session_support := true } i.domain_id e) := by
      obtain ⟨h1, h2, h3, h4, h5, h6, h7, h8⟩ := get_info_setup c s { f with
        untrusted_process := f.untrusted_process || decide (e.tgid ≠ f.tgid_open)
        sessionid := i.session_id, multi_session_support := true } i.domain_id e
      exact ⟨h1, h2, h3, h4, h5, h6, h7, h8⟩
    split
    · exact h.withErr _
    · split
      · exact h
      · exact h.withErr _

theorem set_session_info_setup (c : Config) (s : Apps) (f : File) (i : SessInfo) (e : SetupEnv)
    (copy_out : Bool) : Setup c s f (set_session_info c s f i e copy_out) := by
  unfold set_session_info
  split
  · exact set_session_info_body_setup c s f i e copy_out
  · unfold vfastrpc_set_session_info
    split
    · exact .same
    · exact set_session_info_body_setup c s f i e copy_out

/-- The record of an OPEN message. -/
def openMsg (s : Apps) (f : File) (attrs : BitVec 32) : OpenMsg :=
  ⟨f.domain, attrs, f.untrusted_process, f.dev_minor, (s.channel f.domain.toNat).secure,
    (s.channel f.domain.toNat).unsigned_support⟩

/-- What the end of INIT can do: no message, a message that is not accepted, or one that is. -/
theorem open_and_mark_cases (c : Config) (s : Apps) (f : File) (attrs : BitVec 32)
    (a : OpenAnswer) :
    (∃ err, open_and_mark c s f attrs a = ⟨s, f, some err⟩) ∨
    (∃ err, open_and_mark c s f attrs a =
      ⟨{ s with opens := openMsg s f attrs :: s.opens }, f, some err⟩) ∨
    ∃ cid, a = .reply 0 cid ∧
      open_and_mark c s f attrs a =
        if cid < 0 then
          ⟨{ s with opens := openMsg s f attrs :: s.opens },
            { f with opened := (cid, asks_unsigned c attrs) :: f.opened }, some .EINVAL⟩
        else
          ⟨{ s with opens := openMsg s f attrs :: s.opens },
            { f with
              opened := (cid, asks_unsigned c attrs) :: f.opened, cid, dsp_proc_init := true },
            none⟩ := by
  cases a with
  | no_memory => exact Or.inl ⟨_, rfl⟩
  | send_error => exact Or.inl ⟨_, rfl⟩
  | reply result cid =>
    right
    unfold open_and_mark virt_fastrpc_open
    dsimp only
    by_cases hres : result = 0
    · subst hres
      refine Or.inr ⟨cid, rfl, ?_⟩
      by_cases hcid : cid < 0
      · simp [hcid, openMsg]
      · simp [hcid, openMsg]
    · refine Or.inl ⟨.backend, ?_⟩
      rw [if_pos hres]
      rfl

/-- What the checks of INIT have found when it sends the OPEN message. -/
structure MayOpen (c : Config) (s : Apps) (f g : File) (u : InitAttrs) : Prop where
  create : u.flags = .FASTRPC_INIT_CREATE
  domain_pos : 0 ≤ f.domain
  domain_lt : f.domain < c.num_channels
  not_refused : pd_refused c (s.channel f.domain.toNat) f u.attrs = false
  trusted : f.untrusted_process = true → asks_unsigned c u.attrs = true
  /-- The session as the message is sent. -/
  file : ∃ ssrcount, g = { f with
    ssrcount
    is_unsigned_pd := match c.driver with
      | .hybrid => f.is_unsigned_pd || asks_unsigned c u.attrs
      | .virtio => f.is_unsigned_pd }
  no_clash : c.driver = .hybrid → pd_type_clash s g = false

/-- INIT ends before the message, and leaves at most the mark of an unsigned PD and the restart
count. -/
def EndsBefore (c : Config) (s : Apps) (f : File) (u : InitAttrs) (r : Done) : Prop :=
  ∃ ssrcount flag err, r = ⟨s, { f with ssrcount, is_unsigned_pd := flag }, some err⟩ ∧
    (flag = f.is_unsigned_pd ∨
      u.flags = .FASTRPC_INIT_CREATE ∧ flag = true ∧ asks_unsigned c u.attrs = true)

theorem EndsBefore.same {u : InitAttrs} {n : Nat} {err : Errno} :
    EndsBefore c s f u ⟨s, { f with ssrcount := n }, some err⟩ :=
  ⟨n, _, err, rfl, Or.inl rfl⟩

/-- channel_open gives the session its restart count, or an error. -/
theorem channel_open_cases (s : Apps) (f : File) (e : InitEnv) :
    (∃ err, hfastrpc_channel_open s f e = ⟨s, f, some err⟩) ∨
    ∃ n, hfastrpc_channel_open s f e = ⟨s, { f with ssrcount := n }, none⟩ := by
  unfold hfastrpc_channel_open
  split
  · exact Or.inl ⟨_, rfl⟩
  · split
    · exact Or.inl ⟨_, rfl⟩
    · dsimp only
      split
      · exact Or.inl ⟨_, rfl⟩
      · exact Or.inr ⟨_, rfl⟩

theorem hfastrpc_init_process_cases (hd : c.driver = .hybrid) (s : Apps) (f : File)
    (u : InitAttrs) (e : InitEnv) :
    EndsBefore c s f u (hfastrpc_init_process c s f u e) ∨
    ∃ g, MayOpen c s f g u ∧
      hfastrpc_init_process c s f u e = open_and_mark c s g u.attrs e.answer := by
  unfold hfastrpc_init_process
  split
  · exact Or.inl .same
  · rename_i hdom
    split
    · exact Or.inl .same
    · rename_i hpd
      rcases channel_open_cases s f e with ⟨err, ho⟩ | ⟨n, ho⟩
      · rw [ho]
        exact Or.inl .same
      · rw [ho]
        dsimp only
        split
        · rename_i hcreate
          split
          · exact Or.inl .same
          · rename_i htrust
            split
            · refine Or.inl ⟨_, _, _, rfl, ?_⟩
              cases hu : asks_unsigned c u.attrs
              · simp
              · simp [hcreate]
            · rename_i hclash
              refine Or.inr ⟨_, ⟨hcreate, by omega, by omega, by simpa using hpd, ?_, ⟨n, ?_⟩, ?_⟩,
                rfl⟩
              · intro hun
                simpa [hun] using htrust
              · rw [hd]
              · intro _
                simpa using hclash
        · exact Or.inl .same
        · exact Or.inl .same
        · exact Or.inl .same
        · exact Or.inl .same

theorem vfastrpc_internal_init_process_cases (hd : c.driver = .virtio) (s : Apps) (f : File)
    (u : InitAttrs) (e : InitEnv) :
    EndsBefore c s f u (vfastrpc_internal_init_process c s f u e) ∨
    ∃ g, MayOpen c s f g u ∧
      vfastrpc_internal_init_process c s f u e = open_and_mark c s g u.attrs e.answer := by
  unfold vfastrpc_internal_init_process
  split
  · exact Or.inl .same
  · rename_i hdom
    split
    · exact Or.inl .same
    · rename_i hpd
      split
      · rename_i hcreate
        split
        · exact Or.inl .same
        · rename_i htrust
          refine Or.inr ⟨f, ⟨hcreate, by omega, by omega, by simpa using hpd, ?_,
            ⟨f.ssrcount, ?_⟩, ?_⟩, rfl⟩
          · intro hun
            simpa [hun] using htrust
          · rw [hd]
          · intro hh
            rw [hd] at hh
            cases hh
      · exact Or.inl .same
      · exact Or.inl .same
      · exact Or.inl .same
      · exact Or.inl .same

/-- What INIT can do: it ends before the message, or it sends the message after all of its
checks. -/
theorem init_process_cases (c : Config) (s : Apps) (f : File) (u : InitAttrs) (e : InitEnv) :
    EndsBefore c s f u (init_process c s f u e) ∨
    ∃ g, MayOpen c s f g u ∧ init_process c s f u e = open_and_mark c s g u.attrs e.answer := by
  unfold init_process
  split
  · exact hfastrpc_init_process_cases ‹_› s f u e
  · exact vfastrpc_internal_init_process_cases ‹_› s f u e

/-- The driver after a query of the session has filled the cache of a channel. -/
def filled (c : Config) (s : Apps) (f : File) (domain : Nat) (caps : Nat → BitVec 32) : Apps :=
  { s with replies := ⟨f.domain, caps⟩ :: s.replies }.setChannel domain (fun chan =>
    { chan with
      unsigned_support := caps UNSIGNED_PD_SUPPORT != 0
      dsp_attributes := as_cached c caps
      is_cached := true })

/-- The driver after a user got a capability, or did not. -/
def Apps.answer (s : Apps) (copy_out : Bool) (a : Answer) : Apps :=
  if copy_out then { s with answers := a :: s.answers } else s

@[simp] theorem answer_drivers (s : Apps) (copy_out : Bool) (a : Answer) :
    (s.answer copy_out a).drivers = s.drivers := by
  unfold Apps.answer
  split <;> rfl

@[simp] theorem answer_released (s : Apps) (copy_out : Bool) (a : Answer) :
    (s.answer copy_out a).released = s.released := by
  unfold Apps.answer
  split <;> rfl

@[simp] theorem filled_drivers (c : Config) (s : Apps) (f : File) (domain : Nat)
    (caps : Nat → BitVec 32) : (filled c s f domain caps).drivers = s.drivers := rfl

@[simp] theorem filled_released (c : Config) (s : Apps) (f : File) (domain : Nat)
    (caps : Nat → BitVec 32) : (filled c s f domain caps).released = s.released := rfl

/-- What the lookup of a capability can do: nothing, an answer from the driver or from the
cache, or a query that fills the cache of the channel. -/
theorem get_info_from_kernel_cases (c : Config) (s : Apps) (f : File) (domain attribute_ID : Nat)
    (a : CapAnswer) :
    (∃ err, get_info_from_kernel c s f domain attribute_ID a = (s, .error err)) ∨
    (∃ capability, (attribute_ID < c.FASTRPC_MAX_DSP_ATTRIBUTES →
        (s.channel domain).is_cached = true ∧
          capability = (s.channel domain).dsp_attributes attribute_ID) ∧
      get_info_from_kernel c s f domain attribute_ID a = (s, .ok capability)) ∨
    ∃ caps, a = .reply 0 caps ∧ attribute_ID < c.FASTRPC_MAX_DSP_ATTRIBUTES ∧
      (s.channel domain).is_cached = false ∧
      get_info_from_kernel c s f domain attribute_ID a =
        (filled c s f domain caps, .ok (as_cached c caps attribute_ID)) := by
  unfold get_info_from_kernel
  split
  · exact Or.inl ⟨_, rfl⟩
  · split
    · rename_i hattr
      exact Or.inr (Or.inl ⟨_, fun h => absurd h (by omega), rfl⟩)
    · rename_i hattr
      split
      · rename_i hcache
        cases a with
        | no_memory => exact Or.inl ⟨_, rfl⟩
        | send_error => exact Or.inl ⟨_, rfl⟩
        | reply result caps =>
          unfold virt_fastrpc_get_dsp_info
          by_cases hres : result = 0
          · subst hres
            exact Or.inr (Or.inr ⟨caps, rfl, by omega, hcache, rfl⟩)
          · refine Or.inl ⟨.backend, ?_⟩
            dsimp only
            rw [if_pos hres]
      · rename_i hcache
        exact Or.inr (Or.inl ⟨_, fun _ => ⟨by simpa using hcache, rfl⟩, rfl⟩)

/-- The same for the request of the user. -/
theorem get_dsp_info_cases (c : Config) (s : Apps) (f : File) (domain attribute_ID : Nat)
    (a : CapAnswer) (copy_out : Bool) :
    (vfastrpc_get_dsp_info c s f domain attribute_ID a copy_out).1 = s ∨
    (∃ capability, (attribute_ID < c.FASTRPC_MAX_DSP_ATTRIBUTES →
        (s.channel domain).is_cached = true ∧
          capability = (s.channel domain).dsp_attributes attribute_ID) ∧
      (vfastrpc_get_dsp_info c s f domain attribute_ID a copy_out).1 =
        s.answer copy_out ⟨domain, attribute_ID, capability⟩) ∨
    ∃ caps, a = .reply 0 caps ∧ domain < c.num_channels ∧
      attribute_ID < c.FASTRPC_MAX_DSP_ATTRIBUTES ∧ (s.channel domain).is_cached = false ∧
      (vfastrpc_get_dsp_info c s f domain attribute_ID a copy_out).1 =
        (filled c s f domain caps).answer copy_out
          ⟨domain, attribute_ID, as_cached c caps attribute_ID⟩ := by
  have hout : ∀ (t : Apps) (cap : BitVec 32), (if copy_out = true then
      ({ t with answers := ⟨domain, attribute_ID, cap⟩ :: t.answers }, none)
      else (t, some Errno.VERIFY)).1 = t.answer copy_out ⟨domain, attribute_ID, cap⟩ := by
    intro t cap
    unfold Apps.answer
    split <;> rfl
  unfold vfastrpc_get_dsp_info
  split
  · exact Or.inl rfl
  · rcases get_info_from_kernel_cases c s f domain attribute_ID a with
      ⟨err, he⟩ | ⟨cap, hcap, he⟩ | ⟨caps, ha, hattr, hcache, he⟩
    · rw [he]
      exact Or.inl rfl
    · rw [he]
      exact Or.inr (Or.inl ⟨cap, hcap, hout s cap⟩)
    · rw [he]
      exact Or.inr (Or.inr ⟨caps, ha, by omega, hattr, hcache, hout _ _⟩)

/-- The ways in which a step can change the driver. -/
inductive Effect (c : Config) (s : Apps) : Act → Apps → Prop
  | open_node {v : Nat} {dev_minor : Minor} {tgid : Int} (h : s.file v = none) :
      Effect c s (.open_node v dev_minor tgid)
        { s with drivers := file_alloc v dev_minor tgid :: s.drivers }
  | setup {v : Nat} {q : Req} {f : File} {r : Done} (hf : s.file v = some f)
      (h : Setup c s f r) : Effect c s (.ioctl v q) (r.apps.setFile v r.file)
  | refused {v : Nat} {u : InitAttrs} {e : InitEnv} {f : File} {ssrcount : Nat} {flag : Bool}
      (hf : s.file v = some f)
      (h : flag = f.is_unsigned_pd ∨
        u.flags = .FASTRPC_INIT_CREATE ∧ flag = true ∧ asks_unsigned c u.attrs = true) :
      Effect c s (.ioctl v (.init true u e))
        (s.setFile v { f with ssrcount, is_unsigned_pd := flag })
  | not_accepted {v : Nat} {u : InitAttrs} {e : InitEnv} {f g : File} {opens : List OpenMsg}
      (hf : s.file v = some f) (h : MayOpen c s f g u)
      (ho : opens = s.opens ∨ opens = openMsg s g u.attrs :: s.opens) :
      Effect c s (.ioctl v (.init true u e)) ({ s with opens }.setFile v g)
  | accepted {v : Nat} {u : InitAttrs} {e : InitEnv} {f g g' : File} {cid : Int}
      (hf : s.file v = some f) (h : MayOpen c s f g u) (ha : e.answer = .reply 0 cid)
      (hg : g' = if cid < 0 then { g with opened := (cid, asks_unsigned c u.attrs) :: g.opened }
        else { g with
          opened := (cid, asks_unsigned c u.attrs) :: g.opened, cid, dsp_proc_init := true }) :
      Effect c s (.ioctl v (.init true u e))
        ({ s with opens := openMsg s g u.attrs :: s.opens }.setFile v g')
  | answered {v domain attribute_ID : Nat} {a : CapAnswer} {copy_out : Bool} {f : File}
      {capability : BitVec 32} (hf : s.file v = some f)
      (h : attribute_ID < c.FASTRPC_MAX_DSP_ATTRIBUTES → (s.channel domain).is_cached = true ∧
        capability = (s.channel domain).dsp_attributes attribute_ID) :
      Effect c s (.ioctl v (.get_dsp_info true domain attribute_ID a copy_out))
        ((s.answer copy_out ⟨domain, attribute_ID, capability⟩).setFile v f)
  | filled {v domain attribute_ID : Nat} {copy_out : Bool} {f : File} {caps : Nat → BitVec 32}
      (hf : s.file v = some f) (hd : domain < c.num_channels)
      (ha : attribute_ID < c.FASTRPC_MAX_DSP_ATTRIBUTES)
      (hc : (s.channel domain).is_cached = false) :
      Effect c s (.ioctl v (.get_dsp_info true domain attribute_ID (.reply 0 caps) copy_out))
        (((filled c s f domain caps).answer copy_out
          ⟨domain, attribute_ID, as_cached c caps attribute_ID⟩).setFile v f)
  | release {v : Nat} {f : File} {usage : Nat → Bool} (hf : s.file v = some f) :
      Effect c s (.release v)
        { s with
          frpc_tgid_usage_array := usage
          drivers := remove File.ptr s.drivers v
          released := ⟨f.opened.map Prod.fst, virt_fastrpc_close f⟩ :: s.released }
  | ssr {a : Act} (d : Nat) (ssrcount : Nat) (subsystem_up : Bool) :
      Effect c s a (s.setChannel d (fun chan => { chan with ssrcount, subsystem_up }))

/-- Every step is one of the effects. -/
theorem step_effect {c : Config} {s t : Apps} {a : Act} (ht : step c s a = some t) :
    Effect c s a t := by
  cases a with
  | open_node v dev_minor tgid =>
    simp only [step] at ht
    split at ht
    · cases ht
    · rename_i h
      cases ht
      exact .open_node (by simpa using h)
  | release v =>
    obtain ⟨f, hf, rfl⟩ := Option.map_eq_some_iff.mp ht
    have hv : f.ptr = v := key_of_lookup hf
    subst hv
    unfold file_free put_unique_hlos_process_id
    split <;> exact .release hf
  | ssr_shutdown d =>
    cases ht
    rw [setChannel_congr (k := fun chan =>
      { chan with ssrcount := (s.channel d).ssrcount + 1, subsystem_up := false }) rfl]
    exact .ssr d _ _
  | ssr_powerup d =>
    cases ht
    rw [setChannel_congr (k := fun chan =>
      { chan with ssrcount := (s.channel d).ssrcount, subsystem_up := true }) rfl]
    exact .ssr d _ _
  | ioctl v q =>
    obtain ⟨f, hf, rfl⟩ := Option.map_eq_some_iff.mp ht
    cases q with
    | getinfo copy_in domain e copy_out =>
      refine .setup hf ?_
      have h := get_info_setup c s f domain e
      simp only [vfastrpc_ioctl]
      split
      · exact .same
      · split
        · exact h.withErr _
        · split
          · exact h
          · exact h.withErr _
    | sess_info size_ok copy_in i e copy_out =>
      refine .setup hf ?_
      simp only [vfastrpc_ioctl]
      split
      · exact .same
      · split
        · exact .same
        · exact set_session_info_setup c s f i e copy_out
    | mode_session =>
      refine .setup hf ?_
      simp only [vfastrpc_ioctl, setmode_session]
      split
      · exact .same
      · exact ⟨⟨_, rfl⟩, rfl, rfl, rfl, rfl, rfl, fun h => ⟨h, rfl, rfl, rfl⟩, Or.inl ⟨rfl, rfl⟩⟩
    | init copy_in u e =>
      cases copy_in with
      | false => exact .setup hf .same
      | true =>
        simp only [vfastrpc_ioctl, Bool.true_eq_false, if_false]
        unfold vfastrpc_init_ioctl
        split
        · exact .refused hf (Or.inl rfl)
        · split
          · exact .refused hf (Or.inl rfl)
          · rcases init_process_cases c s f u e with ⟨n, flag, err, he, hflag⟩ | ⟨g, hm, he⟩
            · rw [he]
              exact .refused hf hflag
            · rw [he]
              rcases open_and_mark_cases c s g u.attrs e.answer with
                ⟨err, ho⟩ | ⟨err, ho⟩ | ⟨cid, ha, ho⟩
              · rw [ho]
                exact .not_accepted hf hm (Or.inl rfl)
              · rw [ho]
                exact .not_accepted hf hm (Or.inr rfl)
              · rw [ho]
                have := Effect.accepted hf hm ha rfl
                split
                · rename_i hneg
                  rw [if_pos hneg] at this
                  exact this
                · rename_i hneg
                  rw [if_neg hneg] at this
                  exact this
    | get_dsp_info copy_in domain attribute_ID a copy_out =>
      cases copy_in with
      | false => exact .setup hf .same
      | true =>
        simp only [vfastrpc_ioctl, Bool.true_eq_false, if_false]
        rcases get_dsp_info_cases c s f domain attribute_ID a copy_out with
          he | ⟨cap, hcap, he⟩ | ⟨caps, rfl, hd, ha, hcache, he⟩
        · rw [he]
          exact .setup hf (@Setup.same c s f none)
        · rw [he]
          exact .answered hf hcap
        · rw [he]
          exact .filled hf hd ha hcache

/-- How a request changes its own session. -/
inductive Changed (c : Config) (s : Apps) (f : File) : Req → File → Prop
  | setup {q : Req} {r : Done} (h : Setup c s f r) : Changed c s f q r.file
  | refused {u : InitAttrs} {e : InitEnv} {ssrcount : Nat} {flag : Bool}
      (h : flag = f.is_unsigned_pd ∨
        u.flags = .FASTRPC_INIT_CREATE ∧ flag = true ∧ asks_unsigned c u.attrs = true) :
      Changed c s f (.init true u e) { f with ssrcount, is_unsigned_pd := flag }
  | not_accepted {u : InitAttrs} {e : InitEnv} {g : File} (h : MayOpen c s f g u) :
      Changed c s f (.init true u e) g
  | accepted {u : InitAttrs} {e : InitEnv} {g g' : File} {cid : Int}
      (h : MayOpen c s f g u) (ha : e.answer = .reply 0 cid)
      (hg : g' = if cid < 0 then { g with opened := (cid, asks_unsigned c u.attrs) :: g.opened }
        else { g with
          opened := (cid, asks_unsigned c u.attrs) :: g.opened, cid, dsp_proc_init := true }) :
      Changed c s f (.init true u e) g'

/-- A session after a step is an old one, a new one, or the one that made a request. -/
theorem session_cases {c : Config} {s t : Apps} {a : Act} (ht : step c s a = some t) {g : File}
    (hg : g ∈ t.drivers) :
    g ∈ s.drivers ∨ (∃ v dev_minor tgid, a = .open_node v dev_minor tgid ∧
      g = file_alloc v dev_minor tgid) ∨
    ∃ v q f, a = .ioctl v q ∧ s.file v = some f ∧ Changed c s f q g := by
  have hset : ∀ {s' : Apps} {v : Nat} {q : Req} {f f' : File}, s'.drivers = s.drivers →
      s.file v = some f → Changed c s f q f' → g ∈ (s'.setFile v f').drivers →
      g ∈ s.drivers ∨ ∃ w q' f, Act.ioctl v q = .ioctl w q' ∧ s.file w = some f ∧
        Changed c s f q' g := by
    intro s' v q f f' hs' hf hch hg
    unfold Apps.setFile at hg
    rw [hs'] at hg
    rcases mem_update.mp hg with ⟨hg, _⟩ | ⟨_, _, _, rfl⟩
    · exact Or.inl hg
    · exact Or.inr ⟨v, q, f, rfl, hf, hch⟩
  cases step_effect ht with
  | open_node _ =>
    rcases List.mem_cons.mp hg with rfl | hg
    · exact Or.inr (Or.inl ⟨_, _, _, rfl, rfl⟩)
    · exact Or.inl hg
  | setup hf hs =>
    obtain ⟨usage, hu⟩ := hs.apps
    exact (hset (by rw [hu]) hf (.setup hs) hg).imp_right Or.inr
  | refused hf h => exact (hset rfl hf (.refused h) hg).imp_right Or.inr
  | not_accepted hf hm _ => exact (hset rfl hf (.not_accepted hm) hg).imp_right Or.inr
  | accepted hf hm ha hg' => exact (hset rfl hf (.accepted hm ha hg') hg).imp_right Or.inr
  | answered hf _ =>
    exact (hset (by simp) hf (.setup (@Setup.same c s _ none)) hg).imp_right Or.inr
  | filled hf _ _ _ =>
    exact (hset (by simp) hf (.setup (@Setup.same c s _ none)) hg).imp_right Or.inr
  | release _ => exact Or.inl (mem_remove.mp hg).1
  | ssr _ _ _ => exact Or.inl hg

/-- A law about each session on its own: a new session has it, and a request keeps it. -/
theorem step_each {c : Config} {s t : Apps} {a : Act} (P : File → Prop)
    (hnew : ∀ v dev_minor tgid, P (file_alloc v dev_minor tgid))
    (hreq : ∀ v q f g, a = .ioctl v q → s.file v = some f → P f → Changed c s f q g → P g)
    (h : ∀ f ∈ s.drivers, P f) (ht : step c s a = some t) : ∀ g ∈ t.drivers, P g := by
  intro g hg
  rcases session_cases ht hg with hg | ⟨v, m, tgid, _, rfl⟩ | ⟨v, q, f, ha, hf, hch⟩
  · exact h g hg
  · exact hnew v m tgid
  · exact hreq v q f g ha hf (h f (mem_of_lookup hf)) hch

/-- What was released before, or is released by the step. -/
theorem released_cases {c : Config} {s t : Apps} {a : Act} (ht : step c s a = some t)
    {r : Released} (hr : r ∈ t.released) :
    r ∈ s.released ∨
    ∃ v f, s.file v = some f ∧ r = ⟨f.opened.map Prod.fst, virt_fastrpc_close f⟩ := by
  cases step_effect ht with
  | release hf =>
    rcases List.mem_cons.mp hr with rfl | hr
    · exact Or.inr ⟨_, _, hf, rfl⟩
    · exact Or.inl hr
  | setup _ hs =>
    obtain ⟨usage, hu⟩ := hs.apps
    rw [hu] at hr
    exact Or.inl hr
  | answered _ _ => exact Or.inl (by simpa [Apps.setFile] using hr)
  | filled _ _ _ _ => exact Or.inl (by simpa [Apps.setFile] using hr)
  | open_node _ => exact Or.inl hr
  | refused _ _ => exact Or.inl hr
  | not_accepted _ _ _ => exact Or.inl hr
  | accepted _ _ _ _ => exact Or.inl hr
  | ssr _ _ _ => exact Or.inl hr

end specs

end virtual_fastrpc.sessions
