-- The bytes of a session info. The request copies as many bytes as its size says into a union on
-- the stack, and then checks, stores and copies back the whole structure.
import PlatformKernel.SessionSetup
import PlatformKernel.Buffers
import PlatformKernel.Lib.Words

namespace virtual_fastrpc.sess_info_bytes

open bytes words buffers sessions session_setup

/-- `struct fastrpc_proc_sess_info`: its size, and where the fields are that the drivers name. -/
structure Layout where
  sizeof : Nat
  domain_id : Nat
  session_id : Nat
  pd_type : Nat
  domain_id_fits : domain_id + 4 ≤ sizeof
  session_id_fits : session_id + 4 ≤ sizeof
  pd_type_fits : pd_type + 4 ≤ sizeof

/-- A u32 of the structure. -/
def u32 (off : Nat) : Cell := ⟨off, 4⟩

def Layout.sess_info (lay : Layout) (p : Mem) : SessInfo :=
  ⟨(u32 lay.domain_id).get p, (u32 lay.session_id).get p, (u32 lay.pd_type).get p⟩

/-- The request: `inv2->size`, `inv2->invparam`, and the memory of the user. -/
structure Request where
  size : Nat
  invparam : Nat
  user : UserMem
  is_compat : Bool

/-- What a request leaves: the driver, the session and the result, and what it wrote to the user. -/
structure Reply where
  done : Done
  copied : List Byte

def K_COPY_FROM_USER (kernel : Bool) (user : UserMem) (src size : Nat) : Option (List Byte) :=
  if kernel then some ((List.range size).map (fun j => (user.byte (src + j)).getD 0))
  else copy_from_user user src size

variable (lay : Layout) (c : Config) (s : Apps) (f : File) (e : SetupEnv) (q : Request)

/-- hfastrpc_set_session_info and vfastrpc_set_session_info on the structure at `p`. A session that
is set up leaves a 1 in `domain_id`, and the whole structure is copied back. -/
def set_session_info (p : Mem) : Reply :=
  let i := lay.sess_info p
  let out := copy_to_user q.user ((u32 lay.domain_id).put p 1) q.invparam 0 lay.sizeof
  ⟨sessions.set_session_info c s f i e out.2,
    if (sessions.set_session_info c s f i e true).err = none then out.1.2 else []⟩

/-- `FASTRPC_INVOKE2_SESS_INFO` of hfastrpc_invoke2 and vfastrpc_internal_invoke2, with what the
stack holds where `p` is. -/
def invoke2_sess_info (stack : Mem) : Reply :=
  if lay.sizeof < q.size then ⟨⟨s, f, some .EBADE⟩, []⟩
  else
    match K_COPY_FROM_USER q.is_compat q.user q.invparam q.size with
    | none => ⟨⟨s, f, some .VERIFY⟩, []⟩
    | some bytes => set_session_info lay c s f e q (store stack 0 bytes)

/-! ## When the stack does not matter -/

/-- The error of set_process_info. -/
def process_err : Option Errno :=
  match get_unique_hlos_process_id s with
  | none => some .EUSERS
  | some _ =>
    if c.debugfs_root = false ∨ f.debug_buf_alloced_attempted = true then none
    else if e.debug_buf = false then some .ENOMEM
    else none

/-- A session that has no domain yet may not use this one. -/
def node_err (domain : Nat) : Option Errno :=
  if f.domain = -1 ∧ needs_secure_node f (s.channel domain) = true then some .EACCES else none

/-- The error of GETINFO for a domain, in a session that is not set up. -/
def domain_err (domain : Nat) : Option Errno :=
  match c.driver with
  | .hybrid =>
    if c.num_channels ≤ domain then some .VERIFY
    else process_err c s f e <|> node_err s f domain
  | .virtio =>
    process_err c s f e <|>
      if f.domain = -1 ∧ c.num_channels ≤ domain then some .VERIFY else node_err s f domain

/-- The session info that a request gives, with what the stack held. -/
def filled (bytes : List Byte) (stack : Mem) : SessInfo := lay.sess_info (store stack 0 bytes)

/-- The field is in the bytes of the user. -/
def Given (off : Nat) : Prop := off + 4 ≤ q.size

/-- GETINFO does the same for all the domains that the stack can leave in the structure: it fails
alike, or it accepts them, and then no byte of the stack goes into the session or to the user. -/
def DomainSettled (bytes : List Byte) : Prop :=
  (∃ err, ∀ stack, domain_err c s f e (filled lay bytes stack).domain_id = some err) ∨
  (∀ stack, domain_err c s f e (filled lay bytes stack).domain_id = none) ∧
    (f.domain ≠ -1 ∨ Given q lay.domain_id) ∧
    ∀ j, q.size ≤ j → j < lay.sizeof → j < q.user.takes q.invparam →
      lay.domain_id ≤ j ∧ j < lay.domain_id + 4

/-- What the stack leaves in the structure makes no difference: the checks refuse all of it, or the
session is set up and keeps its fields, or the checks accept all of it, the session id comes from
the user, and the domain is settled. -/
def Settled (bytes : List Byte) : Prop :=
  (∀ stack, sess_info_bad c (trustChecked f e) (filled lay bytes stack) = true) ∨
  f.set_session_info = true ∧
    (c.driver = .virtio ∨
      (∀ stack, sess_info_bad c (trustChecked f e) (filled lay bytes stack) = true ∨
        f.multi_session_support = true ∧ f.sessionid = (filled lay bytes stack).session_id) ∨
      (∀ stack, sess_info_bad c (trustChecked f e) (filled lay bytes stack) = false) ∧
        Given q lay.session_id) ∨
  f.set_session_info = false ∧
    (∀ stack, sess_info_bad c (trustChecked f e) (filled lay bytes stack) = false) ∧
    Given q lay.session_id ∧ DomainSettled lay c s f e q bytes

/-! ## GETINFO -/

section getinfo

variable {c s f e}

theorem set_process_info_err :
    (set_process_info c s { f with set_session_info := true } e).err = process_err c s f e := by
  unfold set_process_info process_err
  dsimp only
  cases get_unique_hlos_process_id s with
  | none => rfl
  | some i =>
    dsimp only
    split
    · rfl
    · split
      · rfl
      · rfl

theorem process_err_cases :
    process_err c s f e = none ∨ process_err c s f e = some .EUSERS ∨
      process_err c s f e = some .ENOMEM := by
  unfold process_err
  split
  · simp
  · split
    · simp
    · split
      · simp
      · simp

/-- A process id that is given is marked as used. -/
theorem set_process_info_apps (h : process_err c s f e = none) :
    (set_process_info c s { f with set_session_info := true } e).apps ≠ s := by
  unfold process_err at h
  unfold set_process_info
  dsimp only
  rcases hi : get_unique_hlos_process_id s with _ | i
  · rw [hi] at h
    cases h
  · have hfree : s.frpc_tgid_usage_array i = false := by
      have hfound := List.find?_some hi
      simpa using hfound
    have hused : ∀ g err, (Done.mk { s with frpc_tgid_usage_array := fun j =>
        if j = i then true else s.frpc_tgid_usage_array j } g err).apps ≠ s := by
      intro g err heq
      have hat := congrArg (fun a => a.frpc_tgid_usage_array i) heq
      simp [hfree] at hat
    dsimp only
    split
    · exact hused _ none
    · split
      · exact hused _ (some .ENOMEM)
      · exact hused _ none

theorem set_process_info_file (g : File) :
    (set_process_info c s g e).file.domain = g.domain ∧
      (set_process_info c s g e).file.dev_minor = g.dev_minor := by
  obtain ⟨usage, tgid_frpc, untrusted, debug, err, hspec⟩ := set_process_info_spec c s g e
  rw [hspec]
  exact ⟨rfl, rfl⟩

theorem set_process_info_channel (g : File) :
    (set_process_info c s g e).apps.channel = s.channel := by
  obtain ⟨usage, tgid_frpc, untrusted, debug, err, hspec⟩ := set_process_info_spec c s g e
  rw [hspec]

/-- The session that GETINFO binds to a domain. -/
def bound (c : Config) (r : Done) (domain : Nat) : File :=
  match c.driver with
  | .hybrid =>
    { r.file with domain, cid := domain, ssrcount := (r.apps.channel domain).ssrcount }
  | .virtio => { r.file with domain }

/-- GETINFO of a session that is not set up, with its error told beforehand. -/
theorem get_info_eq (h : f.set_session_info = false) (domain : Nat) :
    get_info c s f domain e =
      match domain_err c s f e domain with
      | none =>
        let r := set_process_info c s { f with set_session_info := true } e
        ⟨r.apps, if f.domain = -1 then bound c r domain else r.file, none⟩
      | some err =>
        let r := set_process_info c s { f with set_session_info := true } e
        if c.driver = .hybrid ∧ c.num_channels ≤ domain then
          ⟨s, { f with set_session_info := true }, some err⟩
        else ⟨r.apps, r.file, some err⟩ := by
  have herr := @set_process_info_err c s f e
  obtain ⟨hdomain, hminor⟩ := @set_process_info_file c s e { f with set_session_info := true }
  have hchannel := @set_process_info_channel c s e { f with set_session_info := true }
  unfold get_info hfastrpc_get_info vfastrpc_internal_get_info domain_err node_err bound
  simp only [h, Bool.false_eq_true, if_false]
  generalize set_process_info c s { f with set_session_info := true } e = r at *
  obtain ⟨apps, file, err⟩ := r
  dsimp only at *
  have hnode : needs_secure_node file (s.channel domain) =
    needs_secure_node f (s.channel domain) := by
    rw [needs_secure_node, needs_secure_node, hminor]
  rw [hchannel, hdomain, hnode, herr]
  rcases process_err c s f e with _ | err'
  · by_cases hd : f.domain = -1
    · by_cases hn : c.num_channels ≤ domain
      · cases c.driver <;> simp [hd, hn]
      · by_cases hs : needs_secure_node f (s.channel domain) = true
        · cases c.driver <;> simp [hd, hn, hs]
        · cases c.driver <;> simp [hd, hn, hs]
    · by_cases hn : c.num_channels ≤ domain
      · cases c.driver <;> simp [hd, hn]
      · cases c.driver <;> simp [hd, hn]
  · by_cases hn : c.num_channels ≤ domain
    · cases c.driver <;> simp [hn]
    · cases c.driver <;> simp [hn]

theorem get_info_err (h : f.set_session_info = false) (domain : Nat) :
    (get_info c s f domain e).err = domain_err c s f e domain := by
  rw [get_info_eq h]
  rcases domain_err c s f e domain with _ | err
  · rfl
  · dsimp only
    split <;> rfl

theorem process_err_ne : process_err c s f e ≠ some .VERIFY := by
  rcases @process_err_cases c s f e with he | he | he
  · simp [he]
  · simp [he]
  · simp [he]

theorem node_err_ne (domain : Nat) : node_err s f domain ≠ some .VERIFY := by
  unfold node_err
  split
  · simp
  · simp

/-- The hybrid driver refuses a domain without a channel before all else. -/
theorem domain_err_verify (hc : c.driver = .hybrid) (domain : Nat) :
    domain_err c s f e domain = some .VERIFY ↔ c.num_channels ≤ domain := by
  simp only [domain_err, hc]
  constructor
  · intro h
    by_contra hn
    rw [if_neg hn] at h
    rcases hp : process_err c s f e with _ | err
    · rw [hp] at h
      exact node_err_ne domain h
    · rw [hp] at h
      exact process_err_ne (hp.trans h)
  · intro hn
    rw [if_pos hn]

theorem process_err_none {domain : Nat} (h : domain_err c s f e domain = none) :
    process_err c s f e = none := by
  unfold domain_err at h
  rcases hp : process_err c s f e with _ | err
  · rfl
  · rw [hp] at h
    cases hc : c.driver with
    | hybrid =>
      by_cases hn : c.num_channels ≤ domain
      · simp [hc, hn] at h
      · simp [hc, hn] at h
    | virtio => simp [hc] at h

/-- Two domains that are refused alike leave the same. -/
theorem get_info_fails_alike (h : f.set_session_info = false) {domain domain' : Nat} {err : Errno}
    (hd : domain_err c s f e domain = some err) (hd' : domain_err c s f e domain' = some err) :
    get_info c s f domain e = get_info c s f domain' e := by
  rw [get_info_eq h domain, get_info_eq h domain', hd, hd']
  have hsame : (c.driver = .hybrid ∧ c.num_channels ≤ domain) ↔
      (c.driver = .hybrid ∧ c.num_channels ≤ domain') := by
    refine and_congr_right fun hc => ?_
    rw [← @domain_err_verify c s f e hc, ← @domain_err_verify c s f e hc, hd, hd']
  simp only [hsame]

/-- A session that has a domain is not bound to another one. -/
theorem get_info_accepts (h : f.set_session_info = false) (hf : f.domain ≠ -1)
    {domain domain' : Nat} (hd : domain_err c s f e domain = none)
    (hd' : domain_err c s f e domain' = none) :
    get_info c s f domain e = get_info c s f domain' e := by
  rw [get_info_eq h domain, get_info_eq h domain', hd, hd']
  simp only [if_neg hf]

theorem get_info_binds (h : f.set_session_info = false) (hf : f.domain = -1) {domain : Nat}
    (hd : domain_err c s f e domain = none) : (get_info c s f domain e).file.domain = domain := by
  rw [get_info_eq h, hd]
  simp only [if_pos hf, bound]
  cases c.driver <;> rfl

/-- A domain that is accepted leaves something else than one without a channel. -/
theorem get_info_differs (h : f.set_session_info = false) {domain domain' : Nat}
    (hd : domain_err c s f e domain = none) (hd' : domain_err c s f e domain' = some .VERIFY)
    (happs : (get_info c s f domain e).apps = (get_info c s f domain' e).apps) :
    (get_info c s f domain e).file ≠ (get_info c s f domain' e).file := by
  intro hfile
  have hprocess := process_err_none hd
  rw [get_info_eq h domain, get_info_eq h domain', hd, hd'] at happs
  cases hc : c.driver with
  | hybrid =>
    have hn := (domain_err_verify hc domain').mp hd'
    simp only [hc, hn, and_self, if_true] at happs
    exact set_process_info_apps hprocess happs
  | virtio =>
    -- only a session without a domain asks for the channel
    have hf : f.domain = -1 := by
      by_contra hf
      simp [domain_err, hc, hprocess, node_err, hf] at hd'
    have hbinds := get_info_binds h hf hd
    have hstays : (get_info c s f domain' e).file.domain = -1 := by
      rw [get_info_eq h domain', hd']
      simp only [hc, reduceCtorEq, false_and, if_false]
      exact (set_process_info_file _).1.trans hf
    rw [hfile, hstays] at hbinds
    omega

theorem get_info_sessionid (h : f.set_session_info = false) (domain : Nat) :
    (get_info c s f domain e).file.sessionid = f.sessionid := by
  have hkept : (set_process_info c s { f with set_session_info := true } e).file.sessionid =
      f.sessionid := by
    obtain ⟨usage, tgid_frpc, untrusted, debug, err, hspec⟩ :=
      set_process_info_spec c s { f with set_session_info := true } e
    rw [hspec]
  rw [get_info_eq h]
  rcases domain_err c s f e domain with _ | err
  · dsimp only
    split
    · unfold bound
      cases c.driver with
      | hybrid => exact hkept
      | virtio => exact hkept
    · exact hkept
  · dsimp only
    split
    · rfl
    · exact hkept

end getinfo

/-! ## The bytes of the structure -/

section filling

variable {lay c s f e q} {bytes : List Byte}

theorem K_COPY_FROM_USER_length {kernel : Bool} {user : UserMem} {src size : Nat}
    (h : K_COPY_FROM_USER kernel user src size = some bytes) : bytes.length = size := by
  unfold K_COPY_FROM_USER at h
  split at h
  · obtain rfl := Option.some.inj h
    simp
  · exact copy_from_user_length h

/-- A byte of the user is there, whatever the stack held. -/
theorem store_given {x : Nat} (h : x < bytes.length) (stack stack' : Mem) :
    store stack 0 bytes x = store stack' 0 bytes x := by
  simp [store, h]

/-- A byte behind those of the user is that of the stack. -/
theorem store_left {x : Nat} (h : bytes.length ≤ x) (stack : Mem) :
    store stack 0 bytes x = stack x := store_eq_of_apart (Or.inr (by omega))

theorem u32_given {off : Nat} (h : off + 4 ≤ bytes.length) (stack stack' : Mem) :
    (u32 off).get (store stack 0 bytes) = (u32 off).get (store stack' 0 bytes) := by
  apply Cell.get_congr
  intro x _ hx
  have hlt : x < off + 4 := hx
  exact store_given (by omega) stack stack'

/-- A field that is not all in the bytes of the user can be of two values. -/
theorem u32_left {off : Nat} (h : bytes.length < off + 4) :
    ∃ stack stack', (u32 off).get (store stack 0 bytes) ≠ (u32 off).get (store stack' 0 bytes) := by
  refine ⟨fun _ => 0, fun x => if x = off + 3 then 1 else 0, ?_⟩
  have hsame : ∀ j, j < 3 → store (fun _ => (0 : Byte)) 0 bytes (off + j) =
      store (fun x => if x = off + 3 then (1 : Byte) else 0) 0 bytes (off + j) := by
    intro j hj
    by_cases hlt : off + j < bytes.length
    · exact store_given hlt _ _
    · rw [store_left (by omega), store_left (by omega), if_neg (by omega)]
  have hlast : store (fun _ => (0 : Byte)) 0 bytes (off + 3) = 0 := store_left (by omega) _
  have hlast' : store (fun x => if x = off + 3 then (1 : Byte) else 0) 0 bytes (off + 3) = 1 := by
    rw [store_left (by omega), if_pos rfl]
  simp only [Cell.get, u32, load, List.range_succ, List.range_zero, List.map_cons, List.map_nil,
    List.nil_append, List.cons_append, fromLE]
  rw [hsame 0 (by omega), hsame 1 (by omega), hsame 2 (by omega), hlast, hlast']
  simp

/-! ## The reply -/

/-- The virtio driver asks first whether the session is set up. -/
theorem reply_again (hc : c.driver = .virtio) (hset : f.set_session_info = true) (p : Mem) :
    set_session_info lay c s f e q p = ⟨⟨s, f, some .EBADR⟩, []⟩ := by
  simp [set_session_info, sessions.set_session_info, hc, vfastrpc_set_session_info, hset]

/-- What is copied back of the structure at `p`. -/
def copied_back (lay : Layout) (q : Request) (p : Mem) : List Byte :=
  load ((u32 lay.domain_id).put p 1) 0 (min lay.sizeof (q.user.takes q.invparam))

theorem reply_eq (h : ¬(c.driver = .virtio ∧ f.set_session_info = true)) (p : Mem) :
    set_session_info lay c s f e q p =
      if sess_info_bad c (trustChecked f e) (lay.sess_info p) = true then
        ⟨⟨s, trustChecked f e, some .EBADR⟩, []⟩
      else
        let r := get_info c s (withSessionId f (lay.sess_info p) e) (lay.sess_info p).domain_id e
        match r.err with
        | some err => ⟨⟨r.apps, r.file, some err⟩, []⟩
        | none =>
          ⟨if lay.sizeof ≤ q.user.takes q.invparam then r else ⟨r.apps, r.file, some .VERIFY⟩,
            copied_back lay q p⟩ := by
  have hbody : ∀ copy_out, sessions.set_session_info c s f (lay.sess_info p) e copy_out =
      set_session_info_body c s f (lay.sess_info p) e copy_out := by
    intro copy_out
    cases hc : c.driver with
    | hybrid => simp only [sessions.set_session_info, hc, hfastrpc_set_session_info]
    | virtio =>
      have hset : ¬f.set_session_info = true := fun hset => h ⟨hc, hset⟩
      simp only [sessions.set_session_info, hc, vfastrpc_set_session_info, if_neg hset]
  simp only [set_session_info, hbody, body_eq, copy_to_user, copied_back]
  by_cases hbad : sess_info_bad c (trustChecked f e) (lay.sess_info p) = true
  · simp only [if_pos hbad, reduceCtorEq, if_false]
  · simp only [if_neg hbad]
    rcases herr : (get_info c s (withSessionId f (lay.sess_info p) e)
      (lay.sess_info p).domain_id e).err with _ | err
    · simp [herr]
    · simp

/-- The reply, when the stack held something where the structure is. -/
theorem reply_filled (h : ¬(c.driver = .virtio ∧ f.set_session_info = true)) (stack : Mem) :
    set_session_info lay c s f e q (store stack 0 bytes) =
      if sess_info_bad c (trustChecked f e) (filled lay bytes stack) = true then
        ⟨⟨s, trustChecked f e, some .EBADR⟩, []⟩
      else
        let r := get_info c s (withSessionId f (filled lay bytes stack) e)
          (filled lay bytes stack).domain_id e
        match r.err with
        | some err => ⟨⟨r.apps, r.file, some err⟩, []⟩
        | none =>
          ⟨if lay.sizeof ≤ q.user.takes q.invparam then r else ⟨r.apps, r.file, some .VERIFY⟩,
            copied_back lay q (store stack 0 bytes)⟩ := reply_eq h _

/-! ## The two directions -/

/-- No domain of a session id changes what GETINFO finds. -/
theorem domain_err_withSessionId (i : SessInfo) (domain : Nat) :
    domain_err c s (withSessionId f i e) e domain = domain_err c s f e domain := rfl

theorem sessionid_given {i i' : SessInfo} (h : i.session_id = i'.session_id) :
    withSessionId f i e = withSessionId f i' e := by
  rw [withSessionId, withSessionId, h]

/-- GETINFO writes the domain and no other byte of the structure. -/
theorem put_domain_apart {j : Nat} (h : ¬(lay.domain_id ≤ j ∧ j < lay.domain_id + 4)) (m : Mem) :
    (u32 lay.domain_id).put m 1 j = m j := by
  have hlength : (toLE (u32 lay.domain_id).width 1).length = 4 := length_toLE 4 1
  have hout : j < lay.domain_id ∨ lay.domain_id +
    (toLE (u32 lay.domain_id).width 1).length ≤ j := by
    omega
  exact store_eq_of_apart hout

/-- What is copied back, when only the domain is not all from the user. -/
theorem copied_back_eq (hlen : bytes.length = q.size)
    (h : ∀ j, q.size ≤ j → j < lay.sizeof → j < q.user.takes q.invparam →
      lay.domain_id ≤ j ∧ j < lay.domain_id + 4) (stack stack' : Mem) :
    copied_back lay q (store stack 0 bytes) = copied_back lay q (store stack' 0 bytes) := by
  rw [copied_back, copied_back, load_eq_iff]
  intro j hj
  rw [Nat.zero_add]
  by_cases hcell : lay.domain_id ≤ j ∧ j < lay.domain_id + 4
  · have hlength : (toLE (u32 lay.domain_id).width 1).length = 4 := length_toLE 4 1
    exact store_of_covered hcell.1 (by rw [hlength]; exact hcell.2)
  · have hlt : j < q.size := by
      by_contra hge
      exact hcell (h j (by omega) (by omega) (by omega))
    rw [put_domain_apart hcell, put_domain_apart hcell]
    exact store_given (by omega) stack stack'

/-- A byte that is copied back as the stack held it is one of the domain. -/
theorem domain_of_copied_back_eq (hlen : bytes.length = q.size)
    (h : ∀ stack stack', copied_back lay q (store stack 0 bytes) =
      copied_back lay q (store stack' 0 bytes))
    {j : Nat} (hsize : q.size ≤ j) (hstruct : j < lay.sizeof)
    (htakes : j < q.user.takes q.invparam) :
    lay.domain_id ≤ j ∧ j < lay.domain_id + 4 := by
  by_contra hcell
  have hcopied := h (fun _ => 0) (fun x => if x = j then 1 else 0)
  rw [copied_back, copied_back, load_eq_iff] at hcopied
  have hat := hcopied j (by omega)
  rw [Nat.zero_add, put_domain_apart hcell, put_domain_apart hcell, store_left (by omega),
    store_left (by omega), if_pos rfl] at hat
  cases hat

/-- With a settled domain, GETINFO and the copy back are the same. -/
theorem same_of_domain_settled (hlen : bytes.length = q.size) (hset : f.set_session_info = false)
    (hgood : ∀ stack, sess_info_bad c (trustChecked f e) (filled lay bytes stack) = false)
    (hsession : Given q lay.session_id) (h : DomainSettled lay c s f e q bytes)
    (stack stack' : Mem) :
    set_session_info lay c s f e q (store stack 0 bytes) =
      set_session_info lay c s f e q (store stack' 0 bytes) := by
  have hrun : ¬(c.driver = .virtio ∧ f.set_session_info = true) := by simp [hset]
  have hgood' : ∀ stack, ¬sess_info_bad c (trustChecked f e) (filled lay bytes stack) = true := by
    intro stack
    rw [hgood stack]
    exact Bool.false_ne_true
  have hfile := @sessionid_given f e (filled lay bytes stack)
    (filled lay bytes stack') (u32_given (by rw [hlen]; exact hsession) stack stack')
  have hmarks : (withSessionId f (filled lay bytes stack') e).set_session_info = false :=
    hset
  rw [reply_filled hrun, reply_filled hrun, if_neg (hgood' stack), if_neg (hgood' stack'), hfile]
  rcases h with ⟨err, herr⟩ | ⟨hnone, hdomain, hleft⟩
  · rw [get_info_fails_alike hmarks (herr stack) (herr stack')]
    have herr' := (get_info_err (c := c) (s := s) (e := e) hmarks _).trans (herr stack')
    simp only [herr']
  · have hsame : get_info c s (withSessionId f (filled lay bytes stack') e)
        (filled lay bytes stack).domain_id e =
        get_info c s (withSessionId f (filled lay bytes stack') e)
          (filled lay bytes stack').domain_id e := by
      rcases hdomain with hbound | hgiven
      · exact get_info_accepts hmarks hbound (hnone stack) (hnone stack')
      · have hdom : (filled lay bytes stack).domain_id =
            (filled lay bytes stack').domain_id :=
          u32_given (by rw [hlen]; exact hgiven) stack stack'
        rw [hdom]
    rw [hsame, copied_back_eq hlen hleft stack stack']

theorem same_of_settled (hlen : bytes.length = q.size) (h : Settled lay c s f e q bytes)
    (stack stack' : Mem) :
    set_session_info lay c s f e q (store stack 0 bytes) =
      set_session_info lay c s f e q (store stack' 0 bytes) := by
  by_cases hrun : c.driver = .virtio ∧ f.set_session_info = true
  · rw [reply_again hrun.1 hrun.2, reply_again hrun.1 hrun.2]
  · rcases h with hbad | ⟨hset, hc | hkept | ⟨hgood, hgiven⟩⟩ | ⟨hset, hgood, hgiven, hdomain⟩
    · rw [reply_filled hrun, reply_filled hrun, if_pos (hbad stack), if_pos (hbad stack')]
    · exact absurd ⟨hc, hset⟩ hrun
    · have hone : ∀ stack, set_session_info lay c s f e q (store stack 0 bytes) =
          ⟨⟨s, trustChecked f e, some .EBADR⟩, []⟩ := by
        intro stack
        rw [reply_filled hrun]
        split
        · rfl
        · rename_i hgood
          obtain ⟨hmulti, hid⟩ := (hkept stack).resolve_left hgood
          have hfile : withSessionId f (filled lay bytes stack) e = trustChecked f e := by
            rw [withSessionId, ← hid]
            simp [trustChecked, ← hmulti]
          rw [hfile]
          simp only [get_info_again (c := c) (s := s) (f := trustChecked f e) hset]
      rw [hone stack, hone stack']
    · have hgood' : ∀ stack, ¬sess_info_bad c (trustChecked f e)
          (filled lay bytes stack) = true := by
        intro stack
        simpa using hgood stack
      have hfile := @sessionid_given f e (filled lay bytes stack)
        (filled lay bytes stack') (u32_given (by rw [hlen]; exact hgiven) stack stack')
      have hmarks : (withSessionId f (filled lay bytes stack') e).set_session_info = true :=
        hset
      rw [reply_filled hrun, reply_filled hrun, if_neg (hgood' stack),
        if_neg (hgood' stack'), hfile]
      simp only [get_info_again (c := c) (s := s) hmarks]
    · exact same_of_domain_settled hlen hset hgood hgiven hdomain stack stack'

section one_session

variable (hlen : bytes.length = q.size) (hset : f.set_session_info = false)
  (hgood : ∀ stack, sess_info_bad c (trustChecked f e) (filled lay bytes stack) = false)
  (hsession : Given q lay.session_id)
include hlen hset hgood hsession

/-- The session that GETINFO sees is the same for all that the stack held; only the domain is
left. -/
theorem reply_by_domain : ∃ g : File, g.set_session_info = false ∧ g.domain = f.domain ∧
    (∀ domain, domain_err c s g e domain = domain_err c s f e domain) ∧
    ∀ stack, set_session_info lay c s f e q (store stack 0 bytes) =
      match domain_err c s f e (filled lay bytes stack).domain_id with
      | some err =>
        let r := get_info c s g (filled lay bytes stack).domain_id e
        ⟨⟨r.apps, r.file, some err⟩, []⟩
      | none =>
        let r := get_info c s g (filled lay bytes stack).domain_id e
        ⟨if lay.sizeof ≤ q.user.takes q.invparam then r else ⟨r.apps, r.file, some .VERIFY⟩,
          copied_back lay q (store stack 0 bytes)⟩ := by
  have hrun : ¬(c.driver = .virtio ∧ f.set_session_info = true) := by simp [hset]
  have hmarks : (withSessionId f (filled lay bytes (fun _ => 0)) e).set_session_info = false := hset
  refine ⟨withSessionId f (filled lay bytes (fun _ => 0)) e, hmarks, rfl,
    domain_err_withSessionId _, fun stack => ?_⟩
  have hfile := @sessionid_given f e (filled lay bytes stack) (filled lay bytes (fun _ => 0))
    (u32_given (by rw [hlen]; exact hsession) stack _)
  have herr := get_info_err (c := c) (s := s) (e := e) hmarks (filled lay bytes stack).domain_id
  rw [domain_err_withSessionId] at herr
  rw [reply_filled hrun, hgood stack, if_neg Bool.false_ne_true, hfile]
  simp only [herr]

variable (h : ∀ stack stack', set_session_info lay c s f e q (store stack 0 bytes) =
  set_session_info lay c s f e q (store stack' 0 bytes))
include h

/-- One domain that GETINFO refuses makes it refuse all of them, with the same error. -/
theorem domains_fail_alike {stack : Mem} {err : Errno}
    (herr : domain_err c s f e (filled lay bytes stack).domain_id = some err) (stack' : Mem) :
    domain_err c s f e (filled lay bytes stack').domain_id = some err := by
  obtain ⟨g, hmarks, _, herr_eq, hreply⟩ := reply_by_domain (s := s) hlen hset hgood hsession
  have hsame := h stack stack'
  rw [hreply stack, hreply stack', herr] at hsame
  rcases herr' : domain_err c s f e (filled lay bytes stack').domain_id with _ | err'
  · -- only a copy back that fails has an error here, and GETINFO has done something else
    rw [herr'] at hsame
    dsimp only at hsame
    have happs := congrArg (fun r => r.done.apps) hsame
    have hfile := congrArg (fun r => r.done.file) hsame
    have herror := congrArg (fun r => r.done.err) hsame
    have hinfo := get_info_err (c := c) (s := s) (e := e) hmarks (filled lay bytes stack').domain_id
    rw [herr_eq, herr'] at hinfo
    split at hsame
    · rename_i hroom
      simp only [if_pos hroom, hinfo] at herror
      cases herror
    · rename_i hroom
      simp only [if_neg hroom] at happs hfile herror
      have hdiffers := get_info_differs (c := c) (s := s) (e := e) hmarks
        ((herr_eq _).trans herr') ((herr_eq _).trans (herr.trans herror)) happs.symm
      exact absurd hfile.symm hdiffers
  · rw [herr'] at hsame
    exact (congrArg (fun r => r.done.err) hsame).symm

/-- A domain that GETINFO binds the session to is given. -/
theorem domain_given_of_same
    (hnone : ∀ stack, domain_err c s f e (filled lay bytes stack).domain_id = none)
    (hfree : f.domain = -1) : Given q lay.domain_id := by
  obtain ⟨g, hmarks, hdomain, herr_eq, hreply⟩ := reply_by_domain (s := s) hlen hset hgood hsession
  by_contra hleft
  obtain ⟨stack, stack', hne⟩ := @u32_left bytes lay.domain_id (by unfold Given at hleft; omega)
  have hbinds : ∀ stack, (get_info c s g (filled lay bytes stack).domain_id e).file.domain =
      (filled lay bytes stack).domain_id := by
    intro stack
    exact get_info_binds hmarks (hdomain.trans hfree) ((herr_eq _).trans (hnone stack))
  have hfile : (get_info c s g (filled lay bytes stack).domain_id e).file =
      (get_info c s g (filled lay bytes stack').domain_id e).file := by
    have hsame := congrArg (fun r => r.done.file) (h stack stack')
    rw [hreply stack, hreply stack', hnone, hnone] at hsame
    dsimp only at hsame
    split at hsame
    · exact hsame
    · exact hsame
  have hdomains := congrArg File.domain hfile
  rw [hbinds, hbinds] at hdomains
  exact hne (Int.ofNat_inj.mp hdomains)

/-- Replies that are all the same do not come from a domain of the stack. -/
theorem domain_settled_of_same : DomainSettled lay c s f e q bytes := by
  obtain ⟨g, _, _, _, hreply⟩ := reply_by_domain (s := s) hlen hset hgood hsession
  by_cases hfails : ∃ stack err, domain_err c s f e (filled lay bytes stack).domain_id = some err
  · obtain ⟨stack, err, herr⟩ := hfails
    exact Or.inl ⟨err, domains_fail_alike hlen hset hgood hsession h herr⟩
  · have hnone : ∀ stack, domain_err c s f e (filled lay bytes stack).domain_id = none := by
      intro stack
      by_contra hsome
      obtain ⟨err, herr⟩ := Option.ne_none_iff_exists'.mp hsome
      exact hfails ⟨stack, err, herr⟩
    refine Or.inr ⟨hnone, ?_, fun j hsize hstruct htakes => ?_⟩
    · by_cases hfree : f.domain = -1
      · exact Or.inr (domain_given_of_same hlen hset hgood hsession h hnone hfree)
      · exact Or.inl hfree
    · refine domain_of_copied_back_eq hlen (fun stack stack' => ?_) hsize hstruct htakes
      have hcopied := congrArg Reply.copied (h stack stack')
      rw [hreply, hreply, hnone, hnone] at hcopied
      exact hcopied

end one_session

/-- The session of the hybrid driver after a structure that is accepted: it was set up, and it has
the id of the structure. -/
theorem file_again (hset : f.set_session_info = true) (hc : c.driver ≠ .virtio) {stack : Mem}
    (hstack : ¬sess_info_bad c (trustChecked f e) (filled lay bytes stack) = true) :
    (set_session_info lay c s f e q (store stack 0 bytes)).done.file =
      withSessionId f (filled lay bytes stack) e := by
  have hmarks : (withSessionId f (filled lay bytes stack) e).set_session_info = true := hset
  rw [reply_filled (fun hr => hc hr.1), if_neg hstack]
  simp only [get_info_again (c := c) (s := s) hmarks]

/-- The session after the first structure that is accepted: it is that of GETINFO. -/
theorem file_first (hset : f.set_session_info = false) {stack : Mem}
    (hstack : ¬sess_info_bad c (trustChecked f e) (filled lay bytes stack) = true) :
    (set_session_info lay c s f e q (store stack 0 bytes)).done.file =
      (get_info c s (withSessionId f (filled lay bytes stack) e)
        (filled lay bytes stack).domain_id e).file := by
  rw [reply_filled (by simp [hset]), if_neg hstack]
  dsimp only
  split
  · rfl
  · dsimp only
    split
    · rfl
    · rfl

section same

variable (h : ∀ stack stack', set_session_info lay c s f e q (store stack 0 bytes) =
  set_session_info lay c s f e q (store stack' 0 bytes))
include h

/-- A session that is set up keeps its id, or the id is given. -/
theorem again_settled_of_same (hlen : bytes.length = q.size) (hset : f.set_session_info = true)
    (hc : c.driver ≠ .virtio) :
    (∀ stack, sess_info_bad c (trustChecked f e) (filled lay bytes stack) = true ∨
      f.multi_session_support = true ∧ f.sessionid = (filled lay bytes stack).session_id) ∨
    (∀ stack, sess_info_bad c (trustChecked f e) (filled lay bytes stack) = false) ∧
      Given q lay.session_id := by
  by_cases hall : ∀ stack, sess_info_bad c (trustChecked f e) (filled lay bytes stack) = false
  · refine Or.inr ⟨hall, ?_⟩
    by_contra hleft
    obtain ⟨stack, stack', hne⟩ := @u32_left bytes lay.session_id (by unfold Given at hleft; omega)
    have hfile := congrArg (fun r => r.done.file.sessionid) (h stack stack')
    rw [file_again hset hc (by simp [hall]), file_again hset hc (by simp [hall])] at hfile
    exact hne hfile
  · obtain ⟨refused, hrefused⟩ := not_forall.mp hall
    rw [Bool.not_eq_false] at hrefused
    refine Or.inl fun stack => ?_
    by_cases hstack : sess_info_bad c (trustChecked f e) (filled lay bytes stack) = true
    · exact Or.inl hstack
    · have hfile := congrArg (fun r => r.done.file) (h stack refused)
      rw [file_again hset hc hstack, reply_filled (fun hr => hc hr.1), if_pos hrefused] at hfile
      exact Or.inr ⟨(congrArg File.multi_session_support hfile).symm,
        (congrArg File.sessionid hfile).symm⟩

/-- A first structure that is accepted sets the session up, so that none is refused. -/
theorem accepted_of_same (hset : f.set_session_info = false) {good : Mem}
    (hgood : ¬sess_info_bad c (trustChecked f e) (filled lay bytes good) = true) (stack : Mem) :
    sess_info_bad c (trustChecked f e) (filled lay bytes stack) = false := by
  by_contra hrefused
  rw [Bool.not_eq_false] at hrefused
  have hsame := congrArg (fun r => r.done.file.set_session_info) (h good stack)
  have hmarks : (withSessionId f (filled lay bytes good) e).set_session_info = false := hset
  rw [file_first hset hgood, get_info_marks hmarks, reply_filled (by simp [hset]),
    if_pos hrefused] at hsame
  exact absurd (hsame.trans hset) (by decide)

theorem session_id_given_of_same (hlen : bytes.length = q.size) (hset : f.set_session_info = false)
    (hall : ∀ stack, sess_info_bad c (trustChecked f e) (filled lay bytes stack) = false) :
    Given q lay.session_id := by
  by_contra hleft
  obtain ⟨stack, stack', hne⟩ := @u32_left bytes lay.session_id (by unfold Given at hleft; omega)
  have hsame := congrArg (fun r => r.done.file.sessionid) (h stack stack')
  have hid : ∀ stack, (get_info c s (withSessionId f (filled lay bytes stack) e)
      (filled lay bytes stack).domain_id e).file.sessionid =
        (filled lay bytes stack).session_id := by
    intro stack
    have hmarks : (withSessionId f (filled lay bytes stack) e).set_session_info = false := hset
    exact get_info_sessionid hmarks _
  rw [file_first hset (by simp [hall]), file_first hset (by simp [hall]), hid, hid] at hsame
  exact hne hsame

theorem settled_of_same (hlen : bytes.length = q.size) : Settled lay c s f e q bytes := by
  by_cases hbad : ∀ stack, sess_info_bad c (trustChecked f e) (filled lay bytes stack) = true
  · exact Or.inl hbad
  obtain ⟨good, hgood⟩ := not_forall.mp hbad
  refine Or.inr ?_
  cases hset : f.set_session_info with
  | true =>
    by_cases hc : c.driver = .virtio
    · exact Or.inl ⟨rfl, Or.inl hc⟩
    · exact Or.inl ⟨rfl, Or.inr (again_settled_of_same h hlen hset hc)⟩
  | false =>
    have hall := accepted_of_same h hset hgood
    have hgiven := session_id_given_of_same h hlen hset hall
    exact Or.inr ⟨rfl, hall, hgiven, domain_settled_of_same hlen hset hall hgiven h⟩

end same

/-- The stack has no part in a structure that the user gives whole. -/
theorem same_of_whole (hlen : bytes.length = q.size) (h : lay.sizeof ≤ q.size)
    (stack stack' : Mem) :
    set_session_info lay c s f e q (store stack 0 bytes) =
      set_session_info lay c s f e q (store stack' 0 bytes) := by
  have hdomain := lay.domain_id_fits
  have hsession := lay.session_id_fits
  have htype := lay.pd_type_fits
  have hinfo : filled lay bytes stack = filled lay bytes stack' := by
    simp only [filled, Layout.sess_info, SessInfo.mk.injEq]
    refine ⟨?_, ?_, ?_⟩
    · exact u32_given (by omega) stack stack'
    · exact u32_given (by omega) stack stack'
    · exact u32_given (by omega) stack stack'
  by_cases hrun : c.driver = .virtio ∧ f.set_session_info = true
  · rw [reply_again hrun.1 hrun.2, reply_again hrun.1 hrun.2]
  · rw [reply_filled hrun, reply_filled hrun, hinfo,
      copied_back_eq hlen (fun j hj hlt _ => by omega) stack stack']

end filling

/-! ## The law -/

/-- What a session info request does is the same for all that the stack held, exactly when the user
gives the whole structure, the copy from the user fails, or what is missing is settled. -/
theorem replies_depend_on_the_request_iff :
    (∀ stack stack',
      invoke2_sess_info lay c s f e q stack = invoke2_sess_info lay c s f e q stack') ↔
    lay.sizeof ≤ q.size ∨
      ∀ bytes, K_COPY_FROM_USER q.is_compat q.user q.invparam q.size = some bytes →
        Settled lay c s f e q bytes := by
  unfold invoke2_sess_info
  by_cases hlarge : lay.sizeof < q.size
  · simp only [if_pos hlarge]
    exact iff_of_true (fun _ _ => trivial) (Or.inl (Nat.le_of_lt hlarge))
  · simp only [if_neg hlarge]
    rcases hcopy : K_COPY_FROM_USER q.is_compat q.user q.invparam q.size with _ | bytes
    · exact iff_of_true (fun _ _ => rfl) (Or.inr fun bytes hbytes => by cases hbytes)
    · have hlen := K_COPY_FROM_USER_length hcopy
      dsimp only
      constructor
      · intro hall
        refine Or.inr fun bytes' hbytes => ?_
        obtain rfl := Option.some.inj hbytes
        exact settled_of_same hall hlen
      · rintro (hwhole | hsettled)
        · exact same_of_whole hlen hwhole
        · exact same_of_settled hlen (hsettled bytes rfl)

/-- Four words, of which the drivers name three. -/
def four_words : Layout := ⟨16, 0, 4, 8, by decide, by decide, by decide⟩

/-- A request with the domain 3, the session 0, the pd type 1 and a 0, as far as its size goes. -/
def short_request (size : Nat) : Request where
  size := size
  invparam := 0
  user := ⟨fun x => some (if x = 0 then 3 else if x = 8 then 1 else 0), fun _ => 16⟩
  is_compat := false

/-- The reply to the first session info of a new session. -/
def first_reply (d : Driver) (size : Nat) (stack : Mem) : Reply :=
  invoke2_sess_info four_words (sampleConfig d) (init (sampleConfig d))
    (file_alloc 1 .MINOR_NUM_DEV 7) ⟨7, true, true⟩ (short_request size) stack

/-- With three of the four words, the user reads the stack in the last one. With two of them, the
stack decides whether the request is accepted. -/
theorem two_stacks_give_two_replies :
    (∀ d, (first_reply d 12 (fun _ => 0xaa)).copied ≠ (first_reply d 12 (fun _ => 0x55)).copied) ∧
    (∀ d, (first_reply d 8 (fun _ => 0)).done.err = some .EBADR) ∧
    (∀ d, (first_reply d 8 (fun x => if x = 8 then 1 else 0)).done.err = none) := by
  refine ⟨?_, ?_, ?_⟩
  · intro d
    cases d
    · decide
    · decide
  · intro d
    cases d
    · decide
    · decide
  · intro d
    cases d
    · decide
    · decide

end virtual_fastrpc.sess_info_bytes
