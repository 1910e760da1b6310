-- The probe and the remove of the two drivers, hybrid_fastrpc_vdev.c and
-- virtio_fastrpc_base.c: what they take from the kernel on the way to a
-- registered device, and what is given back when the way ends early.
import PlatformKernel.Lib.Ledger
import Mathlib.Data.List.Flatten

namespace virtual_fastrpc.driver_probe

open ledger

def ENOMEM : Int := 12
def ENODEV : Int := 19
def EINVAL : Int := 22

/-- What a driver takes: the virtqueues, the two arrays of buffers and their pages of some order,
the channels, the notifier and the transport session of a channel, the transport, and what makes
up the device. -/
inductive Res
  | vqs
  | rbufs
  | sbufs
  | rpage (i order : Nat)
  | spage (i order : Nat)
  | channel
  | ssr (i : Nat)
  | session (i : Nat)
  | transport
  | debugfs
  | chrdev
  | cdev
  | dev_class
  | device
  | secure_device
  deriving DecidableEq, Repr

inductive Feature
  | VIRTIO_F_VERSION_1
  | VIRTIO_FASTRPC_F_VERSION
  | VIRTIO_FASTRPC_F_DOMAIN_NUM
  | VIRTIO_FASTRPC_F_VQUEUE_SETTING
  | VIRTIO_FASTRPC_F_HYBRID
  | VIRTIO_FASTRPC_F_INVOKE_ATTR
  | VIRTIO_FASTRPC_F_INVOKE_CRC
  | VIRTIO_FASTRPC_F_MMAP
  | VIRTIO_FASTRPC_F_CONTROL
  | VIRTIO_FASTRPC_F_MEM_MAP
  | VIRTIO_FASTRPC_F_SIGNED_PD_CONTROL
  deriving DecidableEq, Repr

/-- The device of one probe, and what the kernel answers to it: the features and the config
space, the property `qcom,domain_num` of the device tree when there is one, the vrings, and
whether each request is met. -/
structure Vdev where
  has_feature : Feature → Bool
  version : BitVec 32
  max_buf_size : BitVec 32
  domain_num : BitVec 32
  signed_pd_control : BitVec 32
  of_domain_num : Option (Except Int (BitVec 32))
  find_vqs : Int
  svring_size : Nat
  rvring_size : Nat
  rbufs : Bool
  sbufs : Bool
  rpage : Nat → Bool
  spage : Nat → Bool
  channel : Bool
  qcom_register_ssr_notifier : Nat → Bool
  transport_init : Int
  debugfs_create_dir : Bool
  alloc_chrdev_region : Int
  cdev_add : Int
  class_create : Bool
  device_create : Bool
  secure_device_create : Bool

/-- `struct vfastrpc_apps` as far as the probe and the remove go, with the flag
`transport_initialized` of `fa`. Of a pointer the model keeps whether it is set. -/
structure Apps where
  num_bufs : Nat
  buf_size : BitVec 32
  order : Nat
  rbufs : Nat → Bool
  sbufs : Nat → Bool
  num_channels : BitVec 32
  channel : Bool
  transport_initialized : Bool
  debugfs_root : Bool
  has_invoke_attr : Bool
  has_invoke_crc : Bool
  has_mmap : Bool
  has_control : Bool
  has_mem_map : Bool
  has_hybrid : Bool
  signed_pd_control : BitVec 32

/-- The memset. -/
def Apps.zero : Apps :=
  ⟨0, 0, 0, fun _ => false, fun _ => false, 0, false, false, false, false, false, false, false,
    false, false, 0⟩

/-- The driver and the ledger of what it holds. -/
structure Driver where
  me : Apps
  res : Ledger Res

def Driver.acquire (d : Driver) (r : Res) : Driver := { d with res := d.res.acquire r }

def Driver.release (d : Driver) (r : Res) : Driver := { d with res := d.res.release r }

def MAX_FASTRPC_BUF_SIZE : BitVec 32 := 0x400000
def DEF_FASTRPC_BUF_SIZE : BitVec 32 := 0x20000

def BE_MAJOR_VER (ver : BitVec 32) : BitVec 32 := (ver >>> 16) &&& 0xffff

/-! ## The virtqueues and their buffers -/

/-- A loop of __get_free_pages over an array: the entries it sets, and whether it ran to its
end. The entry at which it stops is set to NULL. -/
def get_pages (page : Nat → Res) (ok : Nat → Bool) :
    Nat → Nat → (Nat → Bool) → Ledger Res → (Nat → Bool) × Ledger Res × Bool
  | 0, _, bufs, l => (bufs, l, true)
  | n + 1, i, bufs, l =>
    if ok i then get_pages page ok n (i + 1) (Function.update bufs i true) (l.acquire (page i))
    else (Function.update bufs i false, l, false)

/-- A loop of free_pages over an array, which passes the entries that are NULL. -/
def free_bufs (page : Nat → Res) (bufs : Nat → Bool) (n : Nat) (l : Ledger Res) : Ledger Res :=
  (List.range n).foldl (fun l i => if bufs i then l.release (page i) else l) l

variable (get_order : BitVec 32 → Nat)

/-- The labels `sbuf_del`, `rbuf_del` and `vqs_del`. -/
def vqs_del (d : Driver) : Driver := d.release .vqs

def rbuf_del (d : Driver) : Driver :=
  let l := free_bufs (fun i => .rpage i d.me.order) d.me.rbufs d.me.num_bufs d.res
  vqs_del { d with res := (l.release .sbufs).release .rbufs }

def sbuf_del (d : Driver) : Driver :=
  rbuf_del
    { d with res := free_bufs (fun i => .spage i d.me.order) d.me.sbufs d.me.num_bufs d.res }

def init_vqs (v : Vdev) (d : Driver) : Driver × Int :=
  if v.find_vqs ≠ 0 then (d, v.find_vqs)
  else
    let d := d.acquire .vqs
    if v.rvring_size ≠ v.svring_size then (vqs_del d, -EINVAL)
    else
      let d : Driver := { d with me := { d.me with num_bufs := v.rvring_size } }
      if v.rbufs = false then (vqs_del d, -ENOMEM)
      else
        let d : Driver := { d.acquire .rbufs with me := { d.me with rbufs := fun _ => false } }
        if v.sbufs = false then (vqs_del (d.release .rbufs), -ENOMEM)
        else
          let d : Driver :=
            { d.acquire .sbufs with
              me := { d.me with sbufs := fun _ => false, order := get_order d.me.buf_size } }
          let r := get_pages (fun i => .rpage i d.me.order) v.rpage d.me.num_bufs 0 d.me.rbufs d.res
          let d : Driver := ⟨{ d.me with rbufs := r.1 }, r.2.1⟩
          if r.2.2 = false then (rbuf_del d, -ENOMEM)
          else
            let r :=
              get_pages (fun i => .spage i d.me.order) v.spage d.me.num_bufs 0 d.me.sbufs d.res
            let d : Driver := ⟨{ d.me with sbufs := r.1 }, r.2.1⟩
            if r.2.2 = false then (sbuf_del d, -ENOMEM) else (d, 0)

/-! ## What each driver sets up behind the virtqueues -/

section hybrid

variable (NUM_CHANNELS : Nat)

/-- The body of the loop of hfastrpc_init. A notifier that is not registered is a warning. -/
def channel_init (v : Vdev) (d : Driver) (i : Nat) : Driver :=
  let d := if v.qcom_register_ssr_notifier i then d.acquire (.ssr i) else d
  d.acquire (.session i)

def hfastrpc_init (v : Vdev) (d : Driver) : Driver × Int :=
  let d := (List.range NUM_CHANNELS).foldl (channel_init v) d
  if v.transport_init ≠ 0 then (d, v.transport_init)
  else ({ d.acquire .transport with me := { d.me with transport_initialized := true } }, 0)

/-- The body of the loop of hfastrpc_deinit. The handle of the notifier is not looked at. -/
def channel_deinit (d : Driver) (i : Nat) : Driver := (d.release (.ssr i)).release (.session i)

def hfastrpc_deinit (d : Driver) : Driver :=
  let d := (List.range NUM_CHANNELS).foldl channel_deinit d
  let d := if d.me.transport_initialized then d.release .transport else d
  { d with me := { d.me with transport_initialized := false } }

end hybrid

def vfastrpc_channel_init (v : Vdev) (d : Driver) : Driver × Int :=
  if v.channel = false then (d, -ENOMEM)
  else ({ d.acquire .channel with me := { d.me with channel := true } }, 0)

def vfastrpc_channel_deinit (d : Driver) : Driver :=
  let d := if d.me.channel then d.release .channel else d
  { d with me := { d.me with channel := false } }

/-! ## The device -/

/-- debugfs_remove_recursive does nothing without a root. -/
def debugfs_remove (d : Driver) : Driver := if d.me.debugfs_root then d.release .debugfs else d

section device

-- hfastrpc_deinit or vfastrpc_channel_deinit
variable (deinit : Driver → Driver)

def alloc_chrdev_bail (d : Driver) : Driver := vqs_del (deinit (debugfs_remove d))

def cdev_init_bail (d : Driver) : Driver := alloc_chrdev_bail deinit (d.release .chrdev)

def class_create_bail (d : Driver) : Driver := cdev_init_bail deinit (d.release .cdev)

def device_create_bail (dev secure_dev : Bool) (d : Driver) : Driver :=
  let d := if dev then d.release .device else d
  let d := if secure_dev then d.release .secure_device else d
  class_create_bail deinit (d.release .dev_class)

/-- The rest of both probes, from the root of debugfs on. Behind cdev_add `err` is 0, and neither
class_create nor device_create sets it. -/
def register_device (v : Vdev) (d : Driver) : Driver × Int :=
  let d := if v.debugfs_create_dir then d.acquire .debugfs else d
  let d : Driver := { d with me := { d.me with debugfs_root := v.debugfs_create_dir } }
  if v.alloc_chrdev_region ≠ 0 then (alloc_chrdev_bail deinit d, v.alloc_chrdev_region)
  else
    let d := d.acquire .chrdev
    if v.cdev_add ≠ 0 then (cdev_init_bail deinit d, v.cdev_add)
    else
      let d := d.acquire .cdev
      let err := v.cdev_add
      if v.class_create = false then (class_create_bail deinit d, err)
      else
        let d := d.acquire .dev_class
        if v.device_create = false then (device_create_bail deinit false false d, err)
        else
          let d := d.acquire .device
          if v.secure_device_create = false then (device_create_bail deinit true false d, err)
          else (d.acquire .secure_device, 0)

/-- The end of both removes, from the devices on. -/
def unregister_device (d : Driver) : Driver :=
  let d := (d.release .device).release .secure_device
  let d := ((d.release .dev_class).release .cdev).release .chrdev
  let d := vqs_del (deinit (debugfs_remove d))
  let l := free_bufs (fun i => .rpage i d.me.order) d.me.rbufs d.me.num_bufs d.res
  let l := free_bufs (fun i => .spage i d.me.order) d.me.sbufs d.me.num_bufs l
  { d with res := (l.release .sbufs).release .rbufs }

end device

/-! ## The probe and the remove -/

/-- The version of the backend against the one of the driver. -/
def version_ok (FE_MAJOR_VER : BitVec 32) (v : Vdev) : Bool :=
  !v.has_feature .VIRTIO_FASTRPC_F_VERSION || BE_MAJOR_VER v.version == FE_MAJOR_VER

/-- The size of the buffers, unless it is over the limit. -/
def buf_size (v : Vdev) : Option (BitVec 32) :=
  if v.has_feature .VIRTIO_FASTRPC_F_VQUEUE_SETTING then
    if v.max_buf_size > MAX_FASTRPC_BUF_SIZE then none else some v.max_buf_size
  else some DEF_FASTRPC_BUF_SIZE

section hybrid

variable (NUM_CHANNELS : Nat)

/-- The number of the channels: from the config space, up to the channels of the driver. -/
def hfastrpc_num_channels (v : Vdev) : BitVec 32 :=
  if v.has_feature .VIRTIO_FASTRPC_F_DOMAIN_NUM then
    if v.domain_num.toNat < NUM_CHANNELS then v.domain_num else BitVec.ofNat 32 NUM_CHANNELS
  else BitVec.ofNat 32 NUM_CHANNELS

def hfastrpc_probe (v : Vdev) (d : Driver) : Driver × Int :=
  if v.has_feature .VIRTIO_F_VERSION_1 = false then (d, -ENODEV)
  else if v.has_feature .VIRTIO_FASTRPC_F_HYBRID = false then (d, -ENODEV)
  else if version_ok 0x1 v = false then (d, -ENODEV)
  else
    let d : Driver :=
      { d with me := { Apps.zero with has_hybrid := v.has_feature .VIRTIO_FASTRPC_F_HYBRID } }
    match buf_size v with
    | none => (d, -EINVAL)
    | some size =>
      let d : Driver := { d with me := { d.me with buf_size := size } }
      let r := init_vqs get_order v d
      if r.2 ≠ 0 then r
      else
        let d := r.1
        let d : Driver :=
          { d with me := { d.me with num_channels := hfastrpc_num_channels NUM_CHANNELS v } }
        let r := hfastrpc_init NUM_CHANNELS v d
        -- the label `init_fastrpc_bail`
        if r.2 ≠ 0 then (vqs_del r.1, r.2)
        else register_device (hfastrpc_deinit NUM_CHANNELS) v r.1

def hfastrpc_remove (d : Driver) : Driver := unregister_device (hfastrpc_deinit NUM_CHANNELS) d

end hybrid

section virtio

variable (NUM_CHANNELS : Nat)

/-- The number of the channels: from the config space, else from the device tree. -/
def vfastrpc_num_channels (v : Vdev) : Except Int (BitVec 32) :=
  if v.has_feature .VIRTIO_FASTRPC_F_DOMAIN_NUM then .ok v.domain_num
  else
    match v.of_domain_num with
    | some r => r
    | none => .ok (BitVec.ofNat 32 NUM_CHANNELS)

/-- What the driver keeps of the features, behind the memset. -/
def with_features (v : Vdev) : Apps :=
  { Apps.zero with
    has_invoke_attr := v.has_feature .VIRTIO_FASTRPC_F_INVOKE_ATTR
    has_invoke_crc := v.has_feature .VIRTIO_FASTRPC_F_INVOKE_CRC
    has_mmap := v.has_feature .VIRTIO_FASTRPC_F_MMAP
    has_control := v.has_feature .VIRTIO_FASTRPC_F_CONTROL
    has_mem_map := v.has_feature .VIRTIO_FASTRPC_F_MEM_MAP
    signed_pd_control :=
      if v.has_feature .VIRTIO_FASTRPC_F_SIGNED_PD_CONTROL then v.signed_pd_control else 0 }

def virt_fastrpc_probe (v : Vdev) (d : Driver) : Driver × Int :=
  if v.has_feature .VIRTIO_F_VERSION_1 = false then (d, -ENODEV)
  else if version_ok 0x6 v = false then (d, -ENODEV)
  else
    let d : Driver := { d with me := with_features v }
    match buf_size v with
    | none => (d, -EINVAL)
    | some size =>
      let d : Driver := { d with me := { d.me with buf_size := size } }
      let r := init_vqs get_order v d
      if r.2 ≠ 0 then r
      else
        let d := r.1
        match vfastrpc_num_channels NUM_CHANNELS v with
        -- the label `alloc_channel_bail`
        | .error err => (vqs_del d, err)
        | .ok n =>
          let d : Driver := { d with me := { d.me with num_channels := n } }
          let r := vfastrpc_channel_init v d
          if r.2 ≠ 0 then (vqs_del r.1, r.2)
          else register_device vfastrpc_channel_deinit v r.1

def virt_fastrpc_remove (d : Driver) : Driver := unregister_device vfastrpc_channel_deinit d

end virtio

/-! ## The loops over the pages -/

/-- The pages of the first `n` buffers. -/
def pages (page : Nat → Res) (n : Nat) : List Res := (List.range n).map page

theorem free_bufs_eq (page : Nat → Res) (bufs : Nat → Bool) (n : Nat) (l : Ledger Res) :
    free_bufs page bufs n l = l.release_all (((List.range n).filter bufs).map page) := by
  unfold free_bufs
  generalize List.range n = is
  induction is generalizing l with
  | nil => simp
  | cons i is ih =>
    rw [List.foldl_cons, ih]
    by_cases hi : bufs i = true <;> simp [hi]

/-- The loop takes the pages up to the first that it does not get, and sets the entries of these
and no other. -/
theorem get_pages_spec (page : Nat → Res) (ok : Nat → Bool) (n i : Nat) (bufs : Nat → Bool)
    (l : Ledger Res) (hbufs : ∀ j, i ≤ j → bufs j = false) :
    ∃ k ≤ n, (get_pages page ok n i bufs l).2.1 = l.acquire_all ((List.range' i k).map page) ∧
      (∀ j, i ≤ j → ((get_pages page ok n i bufs l).1 j = true ↔ j < i + k)) ∧
      (∀ j < i, (get_pages page ok n i bufs l).1 j = bufs j) ∧
      ((get_pages page ok n i bufs l).2.2 = true ↔ ∀ j < n, ok (i + j) = true) ∧
      ((get_pages page ok n i bufs l).2.2 = true → k = n) := by
  induction n generalizing i bufs l with
  | zero =>
    refine ⟨0, le_refl _, by simp [get_pages], fun j hj => ?_, by simp [get_pages],
      by simp [get_pages], fun _ => rfl⟩
    simp [get_pages, hbufs j hj, Nat.not_lt.mpr hj]
  | succ n ih =>
    by_cases hok : ok i = true
    · have hnext : ∀ j, i + 1 ≤ j → Function.update bufs i true j = false := by
        intro j hj
        rw [Function.update_of_ne (by omega)]
        exact hbufs j (by omega)
      obtain ⟨k, hk, hres, hset, hold, hend, hall⟩ :=
        ih (i + 1) (Function.update bufs i true) (l.acquire (page i)) hnext
      have hgo : get_pages page ok (n + 1) i bufs l =
          get_pages page ok n (i + 1) (Function.update bufs i true) (l.acquire (page i)) := by
        simp [get_pages, hok]
      rw [hgo]
      refine ⟨k + 1, by omega, ?_, fun j hj => ?_, fun j hj => ?_, ?_, ?_⟩
      · rw [hres, List.range'_succ, List.map_cons, acquire_all_cons]
      · by_cases hji : j = i
        · subst hji
          rw [hold j (by omega), Function.update_self]
          simp
        · rw [hset j (by omega)]
          omega
      · rw [hold j (by omega), Function.update_of_ne (by omega)]
      · rw [hend]
        constructor
        · intro h j hj
          rcases j with _ | j
          · simpa using hok
          · have := h j (by omega)
            rwa [show i + 1 + j = i + (j + 1) by omega] at this
        · intro h j hj
          have := h (j + 1) (by omega)
          rwa [show i + (j + 1) = i + 1 + j by omega] at this
      · intro h
        rw [hall h]
    · have hstop : get_pages page ok (n + 1) i bufs l =
          (Function.update bufs i false, l, false) := by
        simp [get_pages, hok]
      rw [hstop]
      refine ⟨0, Nat.zero_le _, by simp, fun j hj => ?_, fun j hj => ?_, ?_, by simp⟩
      · by_cases hji : j = i
        · simp [hji]
        · simp [Function.update_of_ne hji, hbufs j hj, hj]
      · exact Function.update_of_ne (by omega) _ _
      · simp only [Bool.false_eq_true, false_iff]
        intro h
        exact hok (by simpa using h 0 (by omega))

/-- What the loops over an array that starts empty have taken, free_bufs gives back. -/
theorem free_bufs_get_pages (page : Nat → Res) (ok : Nat → Bool) (n : Nat) (l : Ledger Res) :
    free_bufs page (get_pages page ok n 0 (fun _ => false) l).1 n
      (get_pages page ok n 0 (fun _ => false) l).2.1 = l := by
  obtain ⟨k, hk, hres, hset, -⟩ := get_pages_spec page ok n 0 (fun _ => false) l (fun _ _ => rfl)
  rw [free_bufs_eq, hres]
  apply release_all_acquire_all
  have hfilter : (List.range n).filter (get_pages page ok n 0 (fun _ => false) l).1 =
      List.range k := by
    obtain ⟨m, rfl⟩ := Nat.exists_eq_add_of_le hk
    rw [List.range_add, List.filter_append]
    rw [List.filter_eq_self.mpr, List.filter_eq_nil_iff.mpr, List.append_nil]
    · intro j hj
      obtain ⟨q, -, rfl⟩ := List.mem_map.mp hj
      rw [hset _ (Nat.zero_le _)]
      omega
    · intro j hj
      rw [hset j (Nat.zero_le j)]
      simpa using hj
  rw [hfilter, List.range_eq_range']

/-- The pages are all there, or the loop stops. -/
theorem get_pages_all (page : Nat → Res) (l : Ledger Res) {ok : Nat → Bool} {n : Nat}
    (h : ∀ j < n, ok j = true) :
    (get_pages page ok n 0 (fun _ => false) l).2 = (l.acquire_all (pages page n), true) ∧
      ∀ j < n, (get_pages page ok n 0 (fun _ => false) l).1 j = true := by
  obtain ⟨k, hk, hres, hset, -, hend, hall⟩ :=
    get_pages_spec page ok n 0 (fun _ => false) l (fun _ _ => rfl)
  have htrue := hend.mpr (by simpa using h)
  rw [hall htrue] at hres hset
  refine ⟨Prod.ext ?_ htrue, fun j hj => (hset j (Nat.zero_le j)).mpr (by omega)⟩
  rw [hres, pages, List.range_eq_range']

theorem get_pages_stops {page : Nat → Res} {ok : Nat → Bool} {n : Nat} {l : Ledger Res}
    (h : ¬ ∀ j < n, ok j = true) : (get_pages page ok n 0 (fun _ => false) l).2.2 = false := by
  obtain ⟨k, hk, hres, hset, -, hend, hall⟩ :=
    get_pages_spec page ok n 0 (fun _ => false) l (fun _ _ => rfl)
  rw [Bool.eq_false_iff]
  intro htrue
  exact h (by simpa using hend.mp htrue)

/-! ## The virtqueues: all of it or nothing -/

/-- The virtqueues are found, their vrings are of one size, and there is memory for all. -/
def Vdev.queues (v : Vdev) : Prop :=
  v.find_vqs = 0 ∧ v.rvring_size = v.svring_size ∧ v.rbufs = true ∧ v.sbufs = true ∧
    (∀ i < v.rvring_size, v.rpage i = true) ∧ ∀ i < v.rvring_size, v.spage i = true

instance (v : Vdev) : Decidable v.queues := by
  unfold Vdev.queues
  infer_instance

/-- The virtqueues, the arrays and the pages. -/
def vq_res (num_bufs order : Nat) : List Res :=
  [.vqs, .rbufs, .sbufs] ++ pages (fun i => .rpage i order) num_bufs ++
    pages (fun i => .spage i order) num_bufs

/-- The arrays of the driver hold a page in each entry. -/
structure Apps.Filled (me : Apps) (v : Vdev) : Prop where
  num_bufs : me.num_bufs = v.rvring_size
  rbufs : ∀ i < v.rvring_size, me.rbufs i = true
  sbufs : ∀ i < v.rvring_size, me.sbufs i = true

variable {get_order : BitVec 32 → Nat} {v : Vdev} {d : Driver}

theorem init_vqs_filled (h : v.queues) :
    ∃ me : Apps, init_vqs get_order v d =
        (⟨me, d.res.acquire_all (vq_res v.rvring_size (get_order d.me.buf_size))⟩, 0) ∧
      me.Filled v ∧ me.order = get_order d.me.buf_size ∧
      me.transport_initialized = d.me.transport_initialized ∧ me.channel = d.me.channel := by
  obtain ⟨hfind, hsize, hrbufs, hsbufs, hrpage, hspage⟩ := h
  have hr := fun l => get_pages_all (fun i => .rpage i (get_order d.me.buf_size)) l hrpage
  have hs := fun l => get_pages_all (fun i => .spage i (get_order d.me.buf_size)) l hspage
  unfold init_vqs
  rw [if_neg (by simp [hfind]), if_neg (by simp [hsize]), if_neg (by simp [hrbufs]),
    if_neg (by simp [hsbufs])]
  dsimp only [Driver.acquire]
  rw [if_neg (by simp [hr]), if_neg (by simp [hs])]
  refine ⟨_, Prod.ext (congrArg (Driver.mk _) ?_) rfl, ⟨rfl, fun i hi => ?_, fun i hi => ?_⟩, rfl,
    rfl, rfl⟩
  · rw [(hs _).1, (hr _).1]
    simp [vq_res, acquire_all_append]
  · exact (hr _).2 i hi
  · exact (hs _).2 i hi

@[simp] theorem res_vqs_del (d : Driver) : (vqs_del d).res = d.res.release .vqs := rfl

@[simp] theorem res_release (d : Driver) (r : Res) : (d.release r).res = d.res.release r := rfl

@[simp] theorem res_acquire (d : Driver) (r : Res) : (d.acquire r).res = d.res.acquire r := rfl

/-- The labels give back what a loop over the pages has taken, and the arrays and the virtqueues
under it. -/
theorem init_vqs_undone (h : ¬ v.queues) :
    (init_vqs get_order v d).2 ≠ 0 ∧ (init_vqs get_order v d).1.res = d.res := by
  unfold init_vqs
  by_cases hfind : v.find_vqs = 0
  case neg => simp [hfind]
  rw [if_neg (by simp [hfind])]
  by_cases hsize : v.rvring_size = v.svring_size
  case neg => simp [hsize, EINVAL]
  rw [if_neg (by simp [hsize])]
  by_cases hrbufs : v.rbufs = true
  case neg => simp [hrbufs, ENOMEM, Driver.acquire]
  rw [if_neg (by simp [hrbufs])]
  by_cases hsbufs : v.sbufs = true
  case neg => simp [hsbufs, ENOMEM, Driver.acquire, Driver.release]
  rw [if_neg (by simp [hsbufs])]
  dsimp only [Driver.acquire]
  by_cases hrpage : ∀ i < v.rvring_size, v.rpage i = true
  case neg =>
    rw [if_pos (get_pages_stops hrpage)]
    simp [rbuf_del, free_bufs_get_pages, ENOMEM]
  have hr := fun l => get_pages_all (fun i => .rpage i (get_order d.me.buf_size)) l hrpage
  have hspage : ¬ ∀ i < v.rvring_size, v.spage i = true :=
    fun hs => h ⟨hfind, hsize, hrbufs, hsbufs, hrpage, hs⟩
  rw [if_neg (by simp [hr]), if_pos (get_pages_stops hspage)]
  simp [sbuf_del, rbuf_del, free_bufs_get_pages, ENOMEM]

/-- init_vqs, which is the same in the two drivers, holds all of the virtqueues, the arrays and
their pages behind 0, and behind an error it holds nothing, wherever it ended. -/
theorem init_vqs_holds_all_or_nothing (get_order : BitVec 32 → Nat) (v : Vdev) (d : Driver) :
    (init_vqs get_order v d).1.res =
        (if (init_vqs get_order v d).2 = 0 then
          d.res.acquire_all (vq_res v.rvring_size (get_order d.me.buf_size)) else d.res) ∧
      ((init_vqs get_order v d).2 = 0 ↔ v.queues) := by
  by_cases h : v.queues
  · obtain ⟨me, hinit, -⟩ := @init_vqs_filled get_order v d h
    simp [hinit, h]
  · obtain ⟨herr, hres⟩ := @init_vqs_undone get_order v d h
    simp [herr, hres, h]

/-! ## The device as lists of resources -/

/-- The root of debugfs, when there is one. -/
def dbg_res (root : Bool) : List Res := if root then [.debugfs] else []

/-- What a complete registration takes. -/
def device_res (root : Bool) : List Res :=
  dbg_res root ++ [.chrdev, .cdev, .dev_class, .device, .secure_device]

/-- `deinit` releases the list and leaves the buffers. -/
structure Deinit (deinit : Driver → Driver) (rs : Apps → List Res) : Prop where
  res : ∀ d, (deinit d).res = d.res.release_all (rs d.me)
  num_bufs : ∀ d, (deinit d).me.num_bufs = d.me.num_bufs
  rbufs : ∀ d, (deinit d).me.rbufs = d.me.rbufs
  sbufs : ∀ d, (deinit d).me.sbufs = d.me.sbufs
  order : ∀ d, (deinit d).me.order = d.me.order
  root : ∀ me b, rs { me with debugfs_root := b } = rs me
  kept : ∀ me, .rbufs ∉ rs me

@[simp] theorem me_debugfs_remove (d : Driver) : (debugfs_remove d).me = d.me := by
  unfold debugfs_remove
  split <;> rfl

@[simp] theorem res_debugfs_remove (d : Driver) :
    (debugfs_remove d).res = d.res.release_all (dbg_res d.me.debugfs_root) := by
  unfold debugfs_remove dbg_res
  split <;> simp

/-- What the remove releases, in its order. -/
def unregister_res (rs : Apps → List Res) (me : Apps) : List Res :=
  [.device, .secure_device, .dev_class, .cdev, .chrdev] ++ dbg_res me.debugfs_root ++ rs me ++
    [.vqs] ++
    ((List.range me.num_bufs).filter me.rbufs).map (fun i => .rpage i me.order) ++
    ((List.range me.num_bufs).filter me.sbufs).map (fun i => .spage i me.order) ++ [.sbufs, .rbufs]

variable {deinit : Driver → Driver} {rs : Apps → List Res}

theorem res_unregister_device (h : Deinit deinit rs) (d : Driver) :
    (unregister_device deinit d).res = d.res.release_all (unregister_res rs d.me) := by
  unfold unregister_device unregister_res
  simp only [free_bufs_eq, vqs_del, Driver.release, h.res, h.num_bufs, h.rbufs, h.sbufs, h.order,
    me_debugfs_remove, res_debugfs_remove, release_all_append, release_all_cons, release_all_nil]

theorem res_alloc_chrdev_bail (h : Deinit deinit rs) (d : Driver) :
    (alloc_chrdev_bail deinit d).res =
      d.res.release_all (dbg_res d.me.debugfs_root ++ rs d.me ++ [.vqs]) := by
  simp [alloc_chrdev_bail, h.res, release_all_append]

theorem me_release (d : Driver) (r : Res) : (d.release r).me = d.me := rfl

theorem me_acquire (d : Driver) (r : Res) : (d.acquire r).me = d.me := rfl

theorem res_class_create_bail (h : Deinit deinit rs) (d : Driver) :
    (class_create_bail deinit d).res =
      d.res.release_all ([.cdev, .chrdev] ++ dbg_res d.me.debugfs_root ++ rs d.me ++ [.vqs]) := by
  unfold class_create_bail cdev_init_bail
  rw [res_alloc_chrdev_bail h]
  simp [release_all_append, me_release]

/-- The registration is complete. -/
def Vdev.registers (v : Vdev) : Bool :=
  v.alloc_chrdev_region == 0 && v.cdev_add == 0 && v.class_create && v.device_create &&
    v.secure_device_create

/-- The driver behind debugfs_create_dir. -/
def with_root (v : Vdev) (d : Driver) : Driver :=
  ⟨{ d.me with debugfs_root := v.debugfs_create_dir },
    d.res.acquire_all (dbg_res v.debugfs_create_dir)⟩

theorem register_device_eq (deinit : Driver → Driver) (v : Vdev) (d : Driver) :
    register_device deinit v d =
      let d := with_root v d
      if v.alloc_chrdev_region ≠ 0 then (alloc_chrdev_bail deinit d, v.alloc_chrdev_region)
      else if v.cdev_add ≠ 0 then (cdev_init_bail deinit (d.acquire .chrdev), v.cdev_add)
      else if v.class_create = false then
        (class_create_bail deinit ((d.acquire .chrdev).acquire .cdev), 0)
      else if v.device_create = false ∨ v.secure_device_create = false then
        (class_create_bail deinit ((d.acquire .chrdev).acquire .cdev), 0)
      else
        (((((d.acquire .chrdev).acquire .cdev).acquire .dev_class).acquire .device).acquire
          .secure_device, 0) := by
  have hroot : { (if v.debugfs_create_dir = true then d.acquire .debugfs else d) with
      me := { (if v.debugfs_create_dir = true then d.acquire .debugfs else d).me with
        debugfs_root := v.debugfs_create_dir } } = with_root v d := by
    unfold with_root dbg_res
    cases v.debugfs_create_dir <;> simp [Driver.acquire]
  unfold register_device
  simp only [hroot]
  by_cases hcdev : v.cdev_add = 0
  · cases v.class_create <;> cases v.device_create <;> cases v.secure_device_create <;>
      simp [hcdev, device_create_bail, Driver.acquire, Driver.release]
  · simp [hcdev]

theorem register_device_complete (h : v.registers = true) :
    register_device deinit v d =
      (⟨{ d.me with debugfs_root := v.debugfs_create_dir },
        d.res.acquire_all (device_res v.debugfs_create_dir)⟩, 0) := by
  simp only [Vdev.registers, Bool.and_eq_true, beq_iff_eq] at h
  obtain ⟨⟨⟨⟨hchr, hcdev⟩, hclass⟩, hdev⟩, hsec⟩ := h
  rw [register_device_eq]
  simp [hchr, hcdev, hclass, hdev, hsec, with_root, Driver.acquire, device_res, acquire_all_append]

/-- A registration that stops has taken the list `A` and released the list `R`. The device, which
can be there when the secure one fails, is released at once. -/
theorem register_device_stops (hd : Deinit deinit rs) (h : v.registers = false) :
    ∃ A R, (register_device deinit v d).1.res = (d.res.acquire_all A).release_all R ∧
      .rbufs ∉ A ∧ .device ∉ A ∧ .rbufs ∉ R := by
  have hkept : .rbufs ∉ rs d.me := hd.kept d.me
  have hrs : rs (with_root v d).me = rs d.me := hd.root d.me _
  have hdbg : .rbufs ∉ dbg_res v.debugfs_create_dir ∧ .device ∉ dbg_res v.debugfs_create_dir := by
    unfold dbg_res
    split <;> simp
  -- what every label ends with
  let rest := dbg_res v.debugfs_create_dir ++ rs d.me ++ [.vqs]
  have hrest : .rbufs ∉ rest := by simp [rest, hkept, hdbg]
  have hclass : (class_create_bail deinit (((with_root v d).acquire .chrdev).acquire .cdev)).res =
      (d.res.acquire_all (dbg_res v.debugfs_create_dir ++ [.chrdev, .cdev])).release_all
        ([.cdev, .chrdev] ++ rest) := by
    rw [res_class_create_bail hd, me_acquire, me_acquire, hrs, acquire_all_append]
    simp [rest, with_root]
  rw [register_device_eq]
  dsimp only
  split_ifs with hchr hcdev hcls hdev
  · refine ⟨dbg_res v.debugfs_create_dir, rest, ?_, hdbg.1, hdbg.2, hrest⟩
    rw [res_alloc_chrdev_bail hd, hrs]
    simp [rest, with_root]
  · refine ⟨dbg_res v.debugfs_create_dir ++ [.chrdev], .chrdev :: rest, ?_, ?_, ?_, ?_⟩
    · rw [cdev_init_bail, res_alloc_chrdev_bail hd, me_release, me_acquire, hrs,
        acquire_all_append]
      simp [rest, with_root]
    all_goals simp [hdbg, hrest]
  · exact ⟨_, _, hclass, by simp [hdbg], by simp [hdbg], by simp [hrest]⟩
  · exact ⟨_, _, hclass, by simp [hdbg], by simp [hdbg], by simp [hrest]⟩
  · simp_all [Vdev.registers]

/-! ## What the two drivers set up, as lists -/

section

variable {NUM_CHANNELS : Nat}

/-- What a channel takes and what it gives back, which is the same when its notifier was
registered. -/
def channel_res (v : Vdev) (i : Nat) : List Res :=
  (if v.qcom_register_ssr_notifier i then [.ssr i] else []) ++ [.session i]

def hfastrpc_deinit_res (NUM_CHANNELS : Nat) (me : Apps) : List Res :=
  (List.range NUM_CHANNELS).flatMap (fun i => [.ssr i, .session i]) ++
    (if me.transport_initialized then [.transport] else [])

theorem foldl_channel_init (is : List Nat) (d : Driver) :
    is.foldl (channel_init v) d =
      { d with res := d.res.acquire_all (is.flatMap (channel_res v)) } := by
  induction is generalizing d with
  | nil => simp
  | cons i is ih =>
    rw [List.foldl_cons, ih]
    by_cases hi : v.qcom_register_ssr_notifier i = true <;>
      simp [channel_init, channel_res, Driver.acquire, hi]

theorem foldl_channel_deinit (is : List Nat) (d : Driver) :
    is.foldl channel_deinit d =
      { d with res := d.res.release_all (is.flatMap (fun i => [.ssr i, .session i])) } := by
  induction is generalizing d with
  | nil => simp
  | cons i is ih =>
    rw [List.foldl_cons, ih]
    simp [channel_deinit, Driver.release]

theorem deinit_hybrid (NUM_CHANNELS : Nat) :
    Deinit (hfastrpc_deinit NUM_CHANNELS) (hfastrpc_deinit_res NUM_CHANNELS) := by
  constructor
  case res =>
    intro d
    unfold hfastrpc_deinit hfastrpc_deinit_res
    rw [foldl_channel_deinit]
    cases hd : d.me.transport_initialized <;> simp [hd, release_all_append]
  case kept =>
    intro me
    unfold hfastrpc_deinit_res
    split <;> simp
  case root => exact fun _ _ => rfl
  all_goals
    intro d
    unfold hfastrpc_deinit
    rw [foldl_channel_deinit]
    cases hd : d.me.transport_initialized <;> simp [hd, me_release]

theorem deinit_virtio :
    Deinit vfastrpc_channel_deinit (fun me => if me.channel then [.channel] else []) := by
  constructor
  case res =>
    intro d
    cases hd : d.me.channel <;> simp [vfastrpc_channel_deinit, hd]
  case kept =>
    intro me
    split <;> simp
  case root => exact fun _ _ => rfl
  all_goals
    intro d
    cases hd : d.me.channel <;> simp [vfastrpc_channel_deinit, hd, me_release]

end

/-! ## The probe as a step of a component -/

/-- What the remove releases is what was taken, in another order. -/
theorem unregister_balanced (h : Deinit deinit rs) {setup : List Res} {l : Ledger Res}
    (hfill : d.me.Filled v) (hsetup : setup.Perm (rs d.me))
    (hres : d.res = l.acquire_all (vq_res v.rvring_size d.me.order ++ setup ++
      device_res d.me.debugfs_root)) : (unregister_device deinit d).res = l := by
  rw [res_unregister_device h, hres]
  apply release_all_acquire_all
  have hr : (List.range d.me.num_bufs).filter d.me.rbufs = List.range v.rvring_size := by
    rw [hfill.num_bufs]
    exact List.filter_eq_self.mpr (fun i hi => hfill.rbufs i (List.mem_range.mp hi))
  have hs : (List.range d.me.num_bufs).filter d.me.sbufs = List.range v.rvring_size := by
    rw [hfill.num_bufs]
    exact List.filter_eq_self.mpr (fun i hi => hfill.sbufs i (List.mem_range.mp hi))
  unfold unregister_res vq_res device_res pages
  rw [hr, hs, List.perm_iff_count]
  intro x
  have hcount := hsetup.count_eq x
  simp only [List.count_append, List.count_cons, List.count_nil, hcount]
  omega

/-- A probe that stopped behind the virtqueues has taken the list `A` beside them and released the
list `R`. -/
def Stopped (l l' : Ledger Res) (v : Vdev) : Prop :=
  ∃ order A R, l' = (l.acquire_all (vq_res v.rvring_size order ++ A)).release_all R ∧
    .rbufs ∉ A ∧ .device ∉ A ∧ .rbufs ∉ R

theorem rbufs_vq_res (n order : Nat) : (vq_res n order).count .rbufs = 1 := by
  have h : ∀ page : Nat → Res, (∀ i, page i ≠ .rbufs) → (pages page n).count .rbufs = 0 := by
    intro page hpage
    rw [List.count_eq_zero, pages]
    simp [hpage]
  simp [vq_res, h]

theorem device_vq_res (n order : Nat) : .device ∉ vq_res n order := by
  simp [vq_res, pages]

variable {l l' : Ledger Res}

/-- The array of the receive buffers is left behind. -/
theorem Stopped.marked (h : Stopped l l' v) :
    l'.held.count .rbufs = l.held.count .rbufs + 1 := by
  obtain ⟨order, A, R, rfl, hA, -, hR⟩ := h
  rw [count_release_all_of_not_mem hR, held_acquire_all, Multiset.count_add, Multiset.coe_count,
    List.count_append, rbufs_vq_res, List.count_eq_zero.mpr hA]
  omega

theorem Stopped.faults (h : Stopped l l' v) : l.faults ≤ l'.faults := by
  obtain ⟨order, A, R, rfl, -⟩ := h
  apply le_trans _ (faults_release_all _ R)
  simp

theorem Stopped.no_device (h : Stopped .empty l' v) : .device ∉ l'.held := by
  obtain ⟨order, A, R, rfl, -, hA, -⟩ := h
  intro hmem
  have := Multiset.mem_of_le (held_release_all_le _ R) hmem
  simp [device_vq_res, hA, Ledger.empty] at this

/-- The remove of a driver that has no device releases what it does not hold. -/
theorem unregister_faults (h : Deinit deinit rs) (hd : .device ∉ d.res.held) :
    (unregister_device deinit d).res.faults ≠ 0 := by
  rw [res_unregister_device h]
  exact faults_of_not_held (by simp [unregister_res]) hd

theorem unregister_unmarked (h : Deinit deinit rs) (d : Driver) :
    (unregister_device deinit d).res.held.count .rbufs = d.res.held.count .rbufs - 1 := by
  rw [res_unregister_device h, unregister_res, release_all_append, release_all_cons,
    release_all_cons, release_all_nil, count_release_self, count_release_ne (by simp),
    count_release_all_of_not_mem]
  have hdbg : .rbufs ∉ dbg_res d.me.debugfs_root := by
    unfold dbg_res
    split <;> simp
  simp [hdbg, h.kept]

/-- What is known of a driver: `deinit` releases the list `given` when the setup is done, the
probe fails before the virtqueues or gets past them, where it stops or is registered with the
list `taken`. The two lists are the same in a complete probe, and in a registered one that is not
complete something given back is missing. -/
structure Laws (probe : Vdev → Driver → Driver × Int) (deinit : Driver → Driver)
    (rs : Apps → List Res) (ready registered complete : Vdev → Bool) (taken : Vdev → List Res)
    (given : List Res) : Prop where
  deinit : Deinit deinit rs
  early : ∀ v d, ready v = false → (probe v d).1.res = d.res ∧ (probe v d).2 ≠ 0
  stops : ∀ v d, ready v = true → registered v = false → Stopped d.res (probe v d).1.res v
  full : ∀ v d, ready v = true → registered v = true →
    ∃ me : Apps, me.Filled v ∧ rs me = given ∧ probe v d =
      (⟨me, d.res.acquire_all (vq_res v.rvring_size me.order ++ taken v ++
        device_res me.debugfs_root)⟩, 0)
  plain : ∀ v, .rbufs ∉ taken v
  even : ∀ v, complete v = true → registered v = true ∧ (taken v).Perm given
  missing : ∀ v, registered v = true → complete v = false → ∃ r ∈ given,
    r ∉ taken v ∧ (∀ n order, r ∉ vq_res n order) ∧ ∀ root, r ∉ device_res root

theorem rbufs_device_res (root : Bool) : .rbufs ∉ device_res root := by
  unfold device_res dbg_res
  split <;> simp

theorem lawful_of_laws {probe : Vdev → Driver → Driver × Int}
    {ready registered complete : Vdev → Bool} {taken : Vdev → List Res} {given : List Res}
    (h : Laws probe deinit rs ready registered complete taken given) :
    (Component.mk probe (unregister_device deinit) Driver.res).Lawful ready complete .rbufs := by
  constructor
  case early => exact h.early
  case marked =>
    intro v d hr
    cases hreg : registered v
    · exact (h.stops v d hr hreg).marked
    · obtain ⟨me, -, -, hprobe⟩ := h.full v d hr hreg
      simp only [hprobe, held_acquire_all, Multiset.count_add, Multiset.coe_count,
        List.count_append, rbufs_vq_res, List.count_eq_zero.mpr (h.plain v),
        List.count_eq_zero.mpr (rbufs_device_res me.debugfs_root)]
      omega
  case unmarked => exact unregister_unmarked h.deinit
  case faults_probe =>
    intro v d
    cases hr : ready v
    · exact le_of_eq (congrArg Ledger.faults (h.early v d hr).1.symm)
    · cases hreg : registered v
      · exact (h.stops v d hr hreg).faults
      · obtain ⟨me, -, -, hprobe⟩ := h.full v d hr hreg
        simp [hprobe]
  case faults_remove =>
    intro d
    simp only [res_unregister_device h.deinit]
    exact faults_release_all _ _
  case balanced =>
    intro v d hr hcomp
    obtain ⟨hreg, hperm⟩ := h.even v hcomp
    obtain ⟨me, hfill, hgiven, hprobe⟩ := h.full v d hr hreg
    simp only [hprobe]
    exact ⟨trivial, unregister_balanced h.deinit hfill (by rw [hgiven]; exact hperm) rfl⟩
  case unbalanced =>
    intro v d hr hcomp hempty herr
    simp only at hempty herr ⊢
    cases hreg : registered v
    · have hstop := h.stops v d hr hreg
      rw [hempty] at hstop
      exact unregister_faults h.deinit hstop.no_device
    · obtain ⟨me, -, hgiven, hprobe⟩ := h.full v d hr hreg
      obtain ⟨r, hmem, htaken, hvq, hdev⟩ := h.missing v hreg hcomp
      rw [hprobe, hempty, res_unregister_device h.deinit]
      have hrel : r ∈ unregister_res rs me := by simp [unregister_res, hgiven, hmem]
      apply faults_of_not_held hrel
      simp [Ledger.empty, htaken, hvq, hdev]

/-! ## The hybrid driver -/

section hybrid

variable {NUM_CHANNELS : Nat}

/-- The device is one for the driver. -/
def Vdev.hybrid (v : Vdev) : Bool :=
  v.has_feature .VIRTIO_F_VERSION_1 && v.has_feature .VIRTIO_FASTRPC_F_HYBRID &&
    version_ok 0x1 v && (buf_size v).isSome

/-- The probe gets past init_vqs. -/
def Vdev.hybrid_ready (v : Vdev) : Bool := v.hybrid && decide v.queues

/-- What the driver does behind the virtqueues. -/
def hfastrpc_setup (NUM_CHANNELS : Nat) (v : Vdev) (d : Driver) : Driver × Int :=
  let r := hfastrpc_init NUM_CHANNELS v d
  if r.2 ≠ 0 then (vqs_del r.1, r.2) else register_device (hfastrpc_deinit NUM_CHANNELS) v r.1

theorem hfastrpc_probe_early (h : v.hybrid_ready = false) :
    (hfastrpc_probe get_order NUM_CHANNELS v d).1.res = d.res ∧
      (hfastrpc_probe get_order NUM_CHANNELS v d).2 ≠ 0 := by
  unfold hfastrpc_probe
  by_cases h1 : v.has_feature .VIRTIO_F_VERSION_1 = true
  case neg => simp [h1, ENODEV]
  by_cases h2 : v.has_feature .VIRTIO_FASTRPC_F_HYBRID = true
  case neg => simp [h1, h2, ENODEV]
  by_cases h3 : version_ok 0x1 v = true
  case neg =>
    rw [if_neg (by simp [h1]), if_neg (by simp [h2]), if_pos (by simpa using h3)]
    simp [ENODEV]
  rw [if_neg (by simp [h1]), if_neg (by simp [h2]), if_neg (by rw [h3]; simp)]
  cases hsize : buf_size v with
  | none => simp [EINVAL]
  | some size =>
    have hq : ¬ v.queues := by
      have hv : v.hybrid = true := by
        rw [Vdev.hybrid, h1, h2, h3, hsize]
        rfl
      simpa [Vdev.hybrid_ready, hv] using h
    dsimp only
    obtain ⟨herr, hres⟩ := @init_vqs_undone get_order v
      ⟨{ Apps.zero with
        has_hybrid := v.has_feature .VIRTIO_FASTRPC_F_HYBRID, buf_size := size }, d.res⟩ hq
    rw [if_pos herr]
    exact ⟨hres, herr⟩

theorem hfastrpc_probe_ready (h : v.hybrid_ready = true) :
    ∃ me : Apps, me.Filled v ∧ me.transport_initialized = false ∧
      hfastrpc_probe get_order NUM_CHANNELS v d =
        hfastrpc_setup NUM_CHANNELS v ⟨me, d.res.acquire_all (vq_res v.rvring_size me.order)⟩ := by
  simp only [Vdev.hybrid_ready, Vdev.hybrid, Bool.and_eq_true, Option.isSome_iff_exists,
    decide_eq_true_eq] at h
  obtain ⟨⟨⟨⟨h1, h2⟩, h3⟩, size, hsize⟩, hq⟩ := h
  obtain ⟨me, hinit, hfill, horder, htrans, -⟩ := @init_vqs_filled get_order v
    ⟨{ Apps.zero with
      has_hybrid := v.has_feature .VIRTIO_FASTRPC_F_HYBRID, buf_size := size }, d.res⟩ hq
  unfold hfastrpc_probe
  rw [if_neg (by simp [h1]), if_neg (by simp [h2]), if_neg (by rw [h3]; simp), hsize]
  dsimp only
  rw [hinit, if_neg (by simp)]
  refine ⟨{ me with num_channels := hfastrpc_num_channels NUM_CHANNELS v },
    ⟨hfill.num_bufs, hfill.rbufs, hfill.sbufs⟩, htrans, ?_⟩
  dsimp only at horder ⊢
  rw [horder]
  rfl

/-- The driver behind hfastrpc_init. -/
def with_channels (NUM_CHANNELS : Nat) (v : Vdev) (d : Driver) : Driver :=
  ⟨{ d.me with transport_initialized := true },
    d.res.acquire_all ((List.range NUM_CHANNELS).flatMap (channel_res v) ++ [.transport])⟩

theorem channel_res_plain (v : Vdev) (is : List Nat) :
    .rbufs ∉ is.flatMap (channel_res v) ∧ .device ∉ is.flatMap (channel_res v) := by
  have h : ∀ i, .rbufs ∉ channel_res v i ∧ .device ∉ channel_res v i := by
    intro i
    unfold channel_res
    split <;> simp
  simp [h]

theorem hfastrpc_setup_eq (h : v.transport_init = 0) :
    hfastrpc_setup NUM_CHANNELS v d =
      register_device (hfastrpc_deinit NUM_CHANNELS) v (with_channels NUM_CHANNELS v d) := by
  unfold hfastrpc_setup hfastrpc_init
  rw [foldl_channel_init]
  simp [h, with_channels, acquire_all_append, Driver.acquire]

/-- Without the transport or the device the setup stops. -/
theorem hfastrpc_setup_stops {me : Apps}
    (h : ¬ (v.transport_init = 0 ∧ v.registers = true)) :
    Stopped l (hfastrpc_setup NUM_CHANNELS v
      ⟨me, l.acquire_all (vq_res v.rvring_size me.order)⟩).1.res v := by
  have hplain := channel_res_plain v (List.range NUM_CHANNELS)
  by_cases ht : v.transport_init = 0
  case neg =>
    unfold hfastrpc_setup hfastrpc_init
    rw [foldl_channel_init]
    simp only [ne_eq, ht, not_false_eq_true, if_true]
    refine ⟨me.order, _, [.vqs], ?_, hplain.1, hplain.2, by simp⟩
    simp [acquire_all_append]
  rw [hfastrpc_setup_eq ht]
  obtain ⟨A, R, hres, hA, hA', hR⟩ := @register_device_stops v
    (with_channels NUM_CHANNELS v ⟨me, l.acquire_all (vq_res v.rvring_size me.order)⟩) _ _
    (deinit_hybrid NUM_CHANNELS) (by simpa [ht] using h)
  refine ⟨me.order, (List.range NUM_CHANNELS).flatMap (channel_res v) ++ [.transport] ++ A, R,
    ?_, ?_, ?_, hR⟩
  · rw [hres]
    simp [with_channels, acquire_all_append]
  · simp [hplain.1, hA]
  · simp [hplain.2, hA']

/-- The registered driver holds the channels it has, and the device. -/
theorem hfastrpc_setup_complete {me : Apps} (ht : v.transport_init = 0) (hr : v.registers = true) :
    hfastrpc_setup NUM_CHANNELS v ⟨me, l.acquire_all (vq_res v.rvring_size me.order)⟩ =
      (⟨{ me with transport_initialized := true, debugfs_root := v.debugfs_create_dir },
        l.acquire_all (vq_res v.rvring_size me.order ++
          ((List.range NUM_CHANNELS).flatMap (channel_res v) ++ [.transport]) ++
          device_res v.debugfs_create_dir)⟩, 0) := by
  rw [hfastrpc_setup_eq ht, register_device_complete hr]
  simp [with_channels, acquire_all_append]

/-- The notifiers of the channels are all there in a complete probe. -/
theorem channel_res_all (h : (List.range NUM_CHANNELS).all v.qcom_register_ssr_notifier = true) :
    (List.range NUM_CHANNELS).flatMap (channel_res v) =
      (List.range NUM_CHANNELS).flatMap (fun i => [.ssr i, .session i]) := by
  apply List.flatMap_congr
  intro i hi
  simp [channel_res, List.all_eq_true.mp h i hi]

theorem ssr_channel_res (v : Vdev) (is : List Nat) (i : Nat) :
    .ssr i ∈ is.flatMap (channel_res v) ↔ i ∈ is ∧ v.qcom_register_ssr_notifier i = true := by
  rw [List.mem_flatMap]
  constructor
  · rintro ⟨j, hj, hm⟩
    unfold channel_res at hm
    split at hm
    · rename_i hreg
      have hij : i = j := by simpa using hm
      exact hij ▸ ⟨hj, hreg⟩
    · simp at hm
  · rintro ⟨hi, hreg⟩
    exact ⟨i, hi, by simp [channel_res, hreg]⟩

/-- Everything behind init_vqs is met, down to the notifier of each channel. -/
def Vdev.hybrid_complete (NUM_CHANNELS : Nat) (v : Vdev) : Bool :=
  v.transport_init == 0 && v.registers &&
    (List.range NUM_CHANNELS).all v.qcom_register_ssr_notifier

theorem laws_hybrid (get_order : BitVec 32 → Nat) (NUM_CHANNELS : Nat) :
    Laws (hfastrpc_probe get_order NUM_CHANNELS) (hfastrpc_deinit NUM_CHANNELS)
      (hfastrpc_deinit_res NUM_CHANNELS) Vdev.hybrid_ready
      (fun v => v.transport_init == 0 && v.registers) (Vdev.hybrid_complete NUM_CHANNELS)
      (fun v => (List.range NUM_CHANNELS).flatMap (channel_res v) ++ [.transport])
      ((List.range NUM_CHANNELS).flatMap (fun i => [.ssr i, .session i]) ++ [.transport]) where
  deinit := deinit_hybrid NUM_CHANNELS
  early := fun _ _ => hfastrpc_probe_early
  stops := by
    intro v d hr hreg
    obtain ⟨me, -, -, hprobe⟩ := @hfastrpc_probe_ready get_order v d NUM_CHANNELS hr
    rw [hprobe]
    apply hfastrpc_setup_stops
    simpa using hreg
  full := by
    intro v d hr hreg
    obtain ⟨me, hfill, -, hprobe⟩ := @hfastrpc_probe_ready get_order v d NUM_CHANNELS hr
    simp only [Bool.and_eq_true, beq_iff_eq] at hreg
    rw [hprobe, hfastrpc_setup_complete hreg.1 hreg.2]
    refine ⟨{ me with transport_initialized := true, debugfs_root := v.debugfs_create_dir },
      ⟨hfill.num_bufs, hfill.rbufs, hfill.sbufs⟩, rfl, rfl⟩
  plain := by
    intro v
    simpa using (channel_res_plain v (List.range NUM_CHANNELS)).1
  even := by
    intro v hc
    simp only [Vdev.hybrid_complete, Bool.and_eq_true] at hc
    refine ⟨by simpa using hc.1, ?_⟩
    rw [channel_res_all hc.2]
  missing := by
    intro v hreg hc
    -- only the notifier of a channel can be missing
    have hall : (List.range NUM_CHANNELS).all v.qcom_register_ssr_notifier ≠ true := by
      intro hall
      simp only [Vdev.hybrid_complete, hreg, hall, Bool.and_self] at hc
      cases hc
    obtain ⟨i, hi, hno⟩ : ∃ i < NUM_CHANNELS, v.qcom_register_ssr_notifier i = false := by
      simpa using hall
    refine ⟨.ssr i, by simp [hi], ?_, by simp [vq_res, pages], fun root => ?_⟩
    · rw [List.mem_append, ssr_channel_res]
      simp [hno]
    · unfold device_res dbg_res
      split <;> simp

end hybrid

/-! ## The virtio driver -/

section virtio

variable {NUM_CHANNELS : Nat}

/-- The device is one for the driver, and the probe gets past init_vqs. -/
def Vdev.virtio_ready (v : Vdev) : Bool :=
  v.has_feature .VIRTIO_F_VERSION_1 && version_ok 0x6 v && (buf_size v).isSome && decide v.queues

/-- The channels have a number and their memory, and the device is registered. -/
def Vdev.virtio_complete (NUM_CHANNELS : Nat) (v : Vdev) : Bool :=
  (vfastrpc_num_channels NUM_CHANNELS v).isOk && v.channel && v.registers

/-- What the driver does behind the virtqueues. -/
def vfastrpc_setup (NUM_CHANNELS : Nat) (v : Vdev) (d : Driver) : Driver × Int :=
  match vfastrpc_num_channels NUM_CHANNELS v with
  | .error err => (vqs_del d, err)
  | .ok n =>
    let d : Driver := { d with me := { d.me with num_channels := n } }
    let r := vfastrpc_channel_init v d
    if r.2 ≠ 0 then (vqs_del r.1, r.2) else register_device vfastrpc_channel_deinit v r.1

theorem virt_fastrpc_probe_early (h : v.virtio_ready = false) :
    (virt_fastrpc_probe get_order NUM_CHANNELS v d).1.res = d.res ∧
      (virt_fastrpc_probe get_order NUM_CHANNELS v d).2 ≠ 0 := by
  unfold virt_fastrpc_probe
  by_cases h1 : v.has_feature .VIRTIO_F_VERSION_1 = true
  case neg => simp [h1, ENODEV]
  by_cases h3 : version_ok 0x6 v = true
  case neg =>
    rw [if_neg (by simp [h1]), if_pos (by simpa using h3)]
    simp [ENODEV]
  rw [if_neg (by simp [h1]), if_neg (by rw [h3]; simp)]
  cases hsize : buf_size v with
  | none => simp [EINVAL]
  | some size =>
    have hq : ¬ v.queues := by
      rw [Vdev.virtio_ready, h1, h3, hsize] at h
      simpa using h
    dsimp only
    obtain ⟨herr, hres⟩ := @init_vqs_undone get_order v
      ⟨{ with_features v with buf_size := size }, d.res⟩ hq
    rw [if_pos herr]
    exact ⟨hres, herr⟩

theorem virt_fastrpc_probe_ready (h : v.virtio_ready = true) :
    ∃ me : Apps, me.Filled v ∧ me.channel = false ∧
      virt_fastrpc_probe get_order NUM_CHANNELS v d =
        vfastrpc_setup NUM_CHANNELS v ⟨me, d.res.acquire_all (vq_res v.rvring_size me.order)⟩ := by
  simp only [Vdev.virtio_ready, Bool.and_eq_true, Option.isSome_iff_exists, decide_eq_true_eq] at h
  obtain ⟨⟨⟨h1, h3⟩, size, hsize⟩, hq⟩ := h
  obtain ⟨me, hinit, hfill, horder, -, hch⟩ := @init_vqs_filled get_order v
    ⟨{ with_features v with buf_size := size }, d.res⟩ hq
  unfold virt_fastrpc_probe
  rw [if_neg (by simp [h1]), if_neg (by rw [h3]; simp), hsize]
  rw [← horder] at hinit
  dsimp only
  rw [hinit, if_neg (by simp)]
  refine ⟨me, hfill, hch, ?_⟩
  unfold vfastrpc_setup
  cases vfastrpc_num_channels NUM_CHANNELS v <;> rfl

/-- Without the channels or the device the setup stops. -/
theorem vfastrpc_setup_stops {me : Apps} (h : v.virtio_complete NUM_CHANNELS = false) :
    Stopped l (vfastrpc_setup NUM_CHANNELS v
      ⟨me, l.acquire_all (vq_res v.rvring_size me.order)⟩).1.res v := by
  unfold vfastrpc_setup
  cases hn : vfastrpc_num_channels NUM_CHANNELS v with
  | error err => exact ⟨me.order, [], [.vqs], by simp, by simp, by simp, by simp⟩
  | ok n =>
    by_cases hc : v.channel = true
    case neg =>
      refine ⟨me.order, [], [.vqs], ?_, by simp, by simp, by simp⟩
      simp [vfastrpc_channel_init, hc, ENOMEM]
    have hreg : v.registers = false := by
      simpa [Vdev.virtio_complete, hn, hc, Except.isOk, Except.toBool] using h
    simp only [vfastrpc_channel_init, hc, Bool.true_eq_false, if_false, ne_eq, not_true_eq_false]
    obtain ⟨A, R, hres, hA, hA', hR⟩ := @register_device_stops v
      ⟨{ me with num_channels := n, channel := true },
        (l.acquire_all (vq_res v.rvring_size me.order)).acquire .channel⟩ _ _ deinit_virtio hreg
    refine ⟨me.order, .channel :: A, R, ?_, by simp [hA], by simp [hA'], hR⟩
    rw [acquire_all_append, acquire_all_cons]
    exact hres

/-- The registered driver holds the channels and the device. -/
theorem vfastrpc_setup_complete {me : Apps} (h : v.virtio_complete NUM_CHANNELS = true) :
    ∃ n, vfastrpc_setup NUM_CHANNELS v ⟨me, l.acquire_all (vq_res v.rvring_size me.order)⟩ =
      (⟨{ me with num_channels := n, channel := true, debugfs_root := v.debugfs_create_dir },
        l.acquire_all (vq_res v.rvring_size me.order ++ [.channel] ++
          device_res v.debugfs_create_dir)⟩, 0) := by
  simp only [Vdev.virtio_complete, Bool.and_eq_true] at h
  obtain ⟨⟨hn, hc⟩, hreg⟩ := h
  unfold vfastrpc_setup
  cases hdom : vfastrpc_num_channels NUM_CHANNELS v with
  | error err =>
    rw [hdom] at hn
    cases hn
  | ok n =>
    refine ⟨n, ?_⟩
    simp only [vfastrpc_channel_init, hc, Bool.true_eq_false, if_false, ne_eq, not_true_eq_false]
    rw [register_device_complete hreg]
    simp [acquire_all_append, Driver.acquire]

theorem laws_virtio (get_order : BitVec 32 → Nat) (NUM_CHANNELS : Nat) :
    Laws (virt_fastrpc_probe get_order NUM_CHANNELS) vfastrpc_channel_deinit
      (fun me => if me.channel then [.channel] else []) Vdev.virtio_ready
      (Vdev.virtio_complete NUM_CHANNELS) (Vdev.virtio_complete NUM_CHANNELS)
      (fun _ => [.channel]) [.channel] where
  deinit := deinit_virtio
  early := fun _ _ => virt_fastrpc_probe_early
  stops := by
    intro v d hr hreg
    obtain ⟨me, -, -, hprobe⟩ := @virt_fastrpc_probe_ready get_order v d NUM_CHANNELS hr
    rw [hprobe]
    exact vfastrpc_setup_stops hreg
  full := by
    intro v d hr hreg
    obtain ⟨me, hfill, -, hprobe⟩ := @virt_fastrpc_probe_ready get_order v d NUM_CHANNELS hr
    obtain ⟨n, hsetup⟩ := @vfastrpc_setup_complete v d.res NUM_CHANNELS me hreg
    rw [hprobe, hsetup]
    refine ⟨{ me with num_channels := n, channel := true, debugfs_root := v.debugfs_create_dir },
      ⟨hfill.num_bufs, hfill.rbufs, hfill.sbufs⟩, rfl, rfl⟩
  plain := by simp
  even := fun v hc => ⟨hc, List.Perm.refl _⟩
  missing := fun v hreg hc => absurd (hreg.symm.trans hc) (by simp)

end virtio

/-! ## The runs of the bus -/

/-- The drivers as the bus calls them. -/
def hybrid_fastrpc_driver (get_order : BitVec 32 → Nat) (NUM_CHANNELS : Nat) :
    Component Driver Vdev Res :=
  ⟨hfastrpc_probe get_order NUM_CHANNELS, hfastrpc_remove NUM_CHANNELS, Driver.res⟩

def virtio_fastrpc_driver (get_order : BitVec 32 → Nat) (NUM_CHANNELS : Nat) :
    Component Driver Vdev Res :=
  ⟨virt_fastrpc_probe get_order NUM_CHANNELS, virt_fastrpc_remove, Driver.res⟩

/-- The driver before its first probe. -/
def unbound : Bus Driver := ⟨⟨.zero, .empty⟩, false⟩

open step_runs

variable {as : List (Act Vdev)} {t : Bus Driver} {NUM_CHANNELS : Nat}

/-- The hybrid driver has given back all it took, and nothing else, in an unbound state if and only
if each probe of the run that got past its virtqueues went through, with a notifier for every
channel. -/
theorem hybrid_driver_is_balanced_iff
    (hr : run (hybrid_fastrpc_driver get_order NUM_CHANNELS).step unbound as = some t)
    (hb : t.bound = false) :
    t.state.res = .empty ↔ ∀ v, .probe v ∈ as → v.hybrid_ready = true →
      v.hybrid_complete NUM_CHANNELS = true :=
  balanced_iff (lawful_of_laws (laws_hybrid get_order NUM_CHANNELS)) rfl rfl hr hb

/-- The same of the virtio driver, whose channels are an array of its own. -/
theorem virtio_driver_is_balanced_iff
    (hr : run (virtio_fastrpc_driver get_order NUM_CHANNELS).step unbound as = some t)
    (hb : t.bound = false) :
    t.state.res = .empty ↔ ∀ v, .probe v ∈ as → v.virtio_ready = true →
      v.virtio_complete NUM_CHANNELS = true :=
  balanced_iff (lawful_of_laws (laws_virtio get_order NUM_CHANNELS)) rfl rfl hr hb

/-- A device that is met in everything, with two buffers in each direction. -/
def goodDevice (version : BitVec 32) : Vdev where
  has_feature := fun f => f = .VIRTIO_F_VERSION_1 ∨ f = .VIRTIO_FASTRPC_F_VERSION ∨
    f = .VIRTIO_FASTRPC_F_HYBRID
  version := version
  max_buf_size := 0
  domain_num := 0
  signed_pd_control := 0
  of_domain_num := none
  find_vqs := 0
  svring_size := 2
  rvring_size := 2
  rbufs := true
  sbufs := true
  rpage := fun _ => true
  spage := fun _ => true
  channel := true
  qcom_register_ssr_notifier := fun _ => true
  transport_init := 0
  debugfs_create_dir := true
  alloc_chrdev_region := 0
  cdev_add := 0
  class_create := true
  device_create := true
  secure_device_create := true

/-- The class cannot be made, and the probe gives 0 all the same. -/
def withoutClass (version : BitVec 32) : Vdev := { goodDevice version with class_create := false }

theorem a_bound_driver_without_a_class :
    ∃ t, run (hybrid_fastrpc_driver (fun _ => 5) 2).step unbound
        [.probe (goodDevice 0x10000), .remove, .probe (withoutClass 0x10000), .remove] = some t ∧
      t.state.res ≠ .empty := by
  obtain ⟨t, ht, hb⟩ : ∃ t, run (hybrid_fastrpc_driver (fun _ => 5) 2).step unbound
      [.probe (goodDevice 0x10000), .remove, .probe (withoutClass 0x10000), .remove] = some t ∧
      t.bound = false := ⟨_, rfl, rfl⟩
  refine ⟨t, ht, ?_⟩
  intro hempty
  have h := (hybrid_driver_is_balanced_iff ht hb).mp hempty (withoutClass 0x10000) (by simp)
  exact absurd (h (by decide)) (by decide)

theorem a_driver_bound_twice_is_balanced :
    ∃ t, run (virtio_fastrpc_driver (fun _ => 5) 2).step unbound
        [.probe (goodDevice 0x60000), .remove, .probe (goodDevice 0x60000), .remove] = some t ∧
      t.state.res = .empty := by
  obtain ⟨t, ht, hb⟩ : ∃ t, run (virtio_fastrpc_driver (fun _ => 5) 2).step unbound
      [.probe (goodDevice 0x60000), .remove, .probe (goodDevice 0x60000), .remove] = some t ∧
      t.bound = false := ⟨_, rfl, rfl⟩
  refine ⟨t, ht, (virtio_driver_is_balanced_iff ht hb).mpr ?_⟩
  intro v hv _
  have hgood : v = goodDevice 0x60000 := by simpa using hv
  rw [hgood]
  decide

end virtual_fastrpc.driver_probe
