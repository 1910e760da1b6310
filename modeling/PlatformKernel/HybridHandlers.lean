-- What the handlers of the hybrid driver do with the mutexes of a session and
-- with the channel table, path by path: the invocation of a method on the DSP,
-- and the memory requests, which invoke methods of their own. What a path
-- depends on beside the session is in the request's environment.
import PlatformKernel.Lib.Locks
import PlatformKernel.Sessions

namespace virtual_fastrpc.hybrid_handlers

open virtual_fastrpc.sessions locks

/-! ## Traces -/

inductive Mutex
  | map_mutex | internal_map_mutex
  deriving DecidableEq, Repr

/-- A mutex of the session is taken or released, or an entry of `channel` is accessed. -/
inductive Event
  | mutex (o : Op Mutex)
  | channel (d : Int)
  deriving DecidableEq, Repr

abbrev mutex_lock (m : Mutex) : Event := .mutex (.lock m)
abbrev mutex_unlock (m : Mutex) : Event := .mutex (.unlock m)

def Event.op? : Event → Option (Op Mutex)
  | .mutex o => some o
  | .channel _ => none

/-- The trace of a function, and whether it returns 0. -/
structure Outcome where
  events : List Event
  ok : Bool
  deriving DecidableEq, Repr

/-- The outcome of what follows these events. -/
def Outcome.after (es : List Event) (o : Outcome) : Outcome := ⟨es ++ o.events, o.ok⟩

/-- The functions that are called with `map_mutex` held take no mutex themselves. -/
def map_section (es : List Event) : List Event :=
  mutex_lock .map_mutex :: (es ++ [mutex_unlock .map_mutex])

variable (c : Config) (s : Apps) (f : File)

/-- `domain < 0 || domain >= num_channels`. -/
def OutOfRange (d : Int) : Prop := d < 0 ∨ c.num_channels ≤ d

instance (d : Int) : Decidable (OutOfRange c d) := inferInstanceAs (Decidable (_ ∨ _))

/-! ## The invocation -/

def context_free : List Event :=
  if OutOfRange c f.domain then [] else .channel f.domain :: map_section []

/-- Where context_alloc ends: before it has a context, at the arguments that it copies, or at
the context table of the channel. -/
inductive AllocEnv
  | no_context
  | bad_arguments
  | table (free : Bool)
  deriving DecidableEq, Repr

def context_alloc : AllocEnv → Outcome
  | .no_context => ⟨[], false⟩
  | .bad_arguments => ⟨context_free c f, false⟩
  | .table free =>
    if OutOfRange c f.domain then ⟨context_free c f, false⟩
    else if free then ⟨[.channel f.domain], true⟩
    else ⟨.channel f.domain :: context_free c f, false⟩

/-- For each buffer and each DMA handle whether it can be mapped, then whether the metadata and
the pages can be made, the maps of the handles are still there, and the arguments can be
copied. -/
structure ArgsEnv where
  bufs : List Bool
  handles : List Bool
  prepared : Bool
  handles_there : Bool
  copied : Bool
  deriving DecidableEq, Repr

/-- The first loop of get_args. -/
def map_bufs : List Bool → Outcome
  | [] => ⟨[], true⟩
  | true :: rest => (map_bufs rest).after (map_section [])
  | false :: _ => ⟨map_section [], false⟩

/-- The loop over the handles, with `map_mutex` held. -/
def map_handles : List Bool → Outcome
  | [] => ⟨[], true⟩
  | ok :: rest =>
    if OutOfRange c f.domain then ⟨[], false⟩
    else if ok then (map_handles rest).after [.channel f.domain]
    else ⟨[.channel f.domain], false⟩

/-- A handle whose map is gone ends get_args without an error. -/
def get_args (e : ArgsEnv) : Outcome :=
  let b := map_bufs e.bufs
  if b.ok = false then b
  else
    let h := map_handles c f e.handles
    let es := b.events ++ map_section h.events
    if h.ok = false ∨ e.prepared = false then ⟨es, false⟩
    else ⟨es ++ map_section [], !e.handles_there || e.copied⟩

def hfastrpc_invoke_send (sent : Bool) : Outcome :=
  if OutOfRange c f.domain then ⟨[], false⟩
  else ⟨[.channel f.domain], f.ssrcount == (s.channel f.domain.toNat).ssrcount && sent⟩

def poll_for_remote_response : List Event := [.channel f.domain]

/-- `ctx->rsp_flags`, which the responses of the DSP write. -/
inductive RspFlags
  | USER_EARLY_SIGNAL | EARLY_RESPONSE | COMPLETE_SIGNAL | NORMAL_RESPONSE | POLL_MODE | other
  deriving DecidableEq, Repr

/-- The rounds of the loop, each with the flags that it finds. -/
def hfastrpc_wait_for_completion (rounds : List RspFlags) : List Event :=
  rounds.flatMap fun flags =>
    match flags with
    | .EARLY_RESPONSE | .POLL_MODE => poll_for_remote_response f
    | _ => []

/-- What the wait ends with. -/
inductive Waited
  | work_done | not_done | ERESTARTSYS | error
  deriving DecidableEq, Repr

/-- For each output buffer nothing when it is mapped, else whether it can be copied, and then
whether the checksums can be copied. -/
structure PutEnv where
  outbufs : List (Option Bool)
  crc : Bool
  deriving DecidableEq, Repr

def put_outbufs : List (Option Bool) → Outcome
  | [] => ⟨[], true⟩
  | none :: rest => (put_outbufs rest).after (map_section [])
  | some true :: rest => put_outbufs rest
  | some false :: _ => ⟨[], false⟩

def put_args (e : PutEnv) : Outcome :=
  let o := put_outbufs e.outbufs
  if o.ok = false then o else ⟨o.events ++ map_section [], e.crc⟩

inductive Restored
  | mismatch | none | ctx
  deriving DecidableEq, Repr

/-- What an invocation depends on. -/
structure InvokeEnv where
  /-- The handle is one of the two that are for the kernel. -/
  kernel_handle : Bool
  restored : Restored
  alloc : AllocEnv
  args : ArgsEnv
  sent : Bool
  isasyncjob : Bool
  rounds : List RspFlags
  waited : Waited
  put : PutEnv
  retval : Bool
  deriving DecidableEq, Repr

/-- The end of the invocation: `ctx` is what happens to the context. -/
def invoke_bail (ctx : List Event) (ok : Bool) : Outcome :=
  if OutOfRange c f.domain then ⟨ctx, ok⟩
  else ⟨ctx ++ [.channel f.domain, .channel f.domain, .channel f.domain],
    ok && f.ssrcount == (s.channel f.domain.toNat).ssrcount⟩

/-- From the label `wait` on. An interrupted context is saved, any other is freed. -/
def invoke_wait (e : InvokeEnv) : Outcome :=
  let es := hfastrpc_wait_for_completion f e.rounds
  match e.waited with
  | .ERESTARTSYS => (invoke_bail c s f [] false).after es
  | .not_done | .error => (invoke_bail c s f (context_free c f) false).after es
  | .work_done =>
    let p := put_args e.put
    (invoke_bail c s f (context_free c f) (p.ok && e.retval)).after (es ++ p.events)

/-- From context_alloc on. -/
def invoke_new (e : InvokeEnv) : Outcome :=
  let a := context_alloc c f e.alloc
  if a.ok = false then (invoke_bail c s f [] false).after a.events
  else
    let g := get_args c f e.args
    if g.ok = false then
      (invoke_bail c s f (context_free c f) false).after (a.events ++ g.events)
    else
      let t := hfastrpc_invoke_send c s f e.sent
      let es := a.events ++ g.events ++ t.events
      if t.ok = false then (invoke_bail c s f (context_free c f) false).after es
      else if e.isasyncjob then ⟨es, true⟩
      else (invoke_wait c s f e).after es

def hfastrpc_internal_invoke (kernel : Bool) (e : InvokeEnv) : Outcome :=
  if OutOfRange c f.domain then invoke_bail c s f [] false
  else if kernel then invoke_new c s f e
  else if e.kernel_handle then invoke_bail c s f [] false
  else
    match e.restored with
    | .mismatch => invoke_bail c s f [] false
    | .ctx => invoke_wait c s f e
    | .none => invoke_new c s f e

/-! ## The memory requests -/

-- The methods of the process group that the memory requests invoke. They differ in their
-- arguments only.
def hfastrpc_mmap_on_dsp (e : InvokeEnv) : Outcome := hfastrpc_internal_invoke c s f true e
def hfastrpc_munmap_on_dsp (e : InvokeEnv) : Outcome := hfastrpc_internal_invoke c s f true e
def hfastrpc_mem_map_to_dsp (e : InvokeEnv) : Outcome := hfastrpc_internal_invoke c s f true e
def hfastrpc_mem_unmap_to_dsp (e : InvokeEnv) : Outcome := hfastrpc_internal_invoke c s f true e

/-- The shape of the handlers of both drivers: a session that is not initialised leaves with
`early`, and all other work is under `internal_map_mutex`. -/
def mem_handler (f : File) (early body : List Event) : List Event :=
  if f.dsp_proc_init = false then early
  else mutex_lock .internal_map_mutex :: (body ++ [mutex_unlock .internal_map_mutex])

/-- What a request to map depends on, with the remote operation `R` of the driver. -/
inductive MmapEnv (R : Type)
  | add_pages (vaddrin buf_alloc : Bool) (e : R)
  | map (mmap_create : Bool) (e : R)
  deriving DecidableEq, Repr

def hfastrpc_mmap (u : MmapEnv InvokeEnv) : List Event :=
  mem_handler f [] (match u with
    | .add_pages vaddrin buf_alloc e =>
      if vaddrin ∨ buf_alloc = false then [] else (hfastrpc_mmap_on_dsp c s f e).events
    | .map mmap_create e =>
      map_section [] ++
        if mmap_create = false then []
        else
          let r := hfastrpc_mmap_on_dsp c s f e
          r.events ++ if r.ok then [] else map_section [])

/-- The address is of a buffer of the driver, of no map, or of a map. -/
inductive MunmapEnv
  | buffer (e : InvokeEnv)
  | not_found
  | map (is_persistent : Bool) (e : InvokeEnv)
  deriving DecidableEq, Repr

def hfastrpc_munmap (u : MunmapEnv) : List Event :=
  mem_handler f [] (match u with
    | .buffer e => (hfastrpc_munmap_on_dsp c s f e).events
    | .not_found => map_section []
    | .map true _ => map_section [] ++ map_section []
    -- the map is freed, or put back when the method fails
    | .map false e =>
      map_section [] ++ (hfastrpc_munmap_on_dsp c s f e).events ++ map_section [])

def hfastrpc_munmap_fd : List Event := mem_handler f [] (map_section [])

inductive MemMapEnv (R : Type)
  | create_failed
  | mapped_before
  | created (e : R)
  deriving DecidableEq, Repr

/-- A session that is not initialised goes to the label `bail`, which releases
`internal_map_mutex`. -/
def hfastrpc_mem_map (u : MemMapEnv InvokeEnv) : List Event :=
  mem_handler f [mutex_unlock .internal_map_mutex] (map_section [] ++ match u with
    | .create_failed => []
    | .mapped_before => map_section []
    | .created e =>
      let r := hfastrpc_mem_map_to_dsp c s f e
      r.events ++ if r.ok then [] else map_section [])

inductive MemUnmapEnv (R : Type)
  | not_found
  | bad_flags
  | map (e : R)
  deriving DecidableEq, Repr

/-- The same label `bail` here. -/
def hfastrpc_mem_unmap (u : MemUnmapEnv InvokeEnv) : List Event :=
  mem_handler f [mutex_unlock .internal_map_mutex] (map_section [] ++ match u with
    | .not_found => []
    | .bad_flags => map_section []
    -- the map is freed, or put back when the method fails
    | .map e => (hfastrpc_mem_unmap_to_dsp c s f e).events ++ map_section [])

/-- The five memory requests. -/
inductive MemReq
  | mmap (u : MmapEnv InvokeEnv)
  | munmap (u : MunmapEnv)
  | munmap_fd
  | mem_map (u : MemMapEnv InvokeEnv)
  | mem_unmap (u : MemUnmapEnv InvokeEnv)
  deriving DecidableEq, Repr

def mem_request : MemReq → List Event
  | .mmap u => hfastrpc_mmap c s f u
  | .munmap u => hfastrpc_munmap c s f u
  | .munmap_fd => hfastrpc_munmap_fd f
  | .mem_map u => hfastrpc_mem_map c s f u
  | .mem_unmap u => hfastrpc_mem_unmap c s f u

/-! ## What the traces are made of -/

section plain

variable {c} {s} {f}

/-- An invocation accesses entries of the channel table and has sections under `map_mutex`, and
nothing else. -/
inductive Plain (c : Config) : List Event → Prop
  | nil : Plain c []
  | channel {d : Int} (h : ¬ OutOfRange c d) : Plain c [.channel d]
  | map_section {es : List Event} (h : ∀ e ∈ es, ∃ d, e = .channel d ∧ ¬ OutOfRange c d) :
      Plain c (map_section es)
  | append {as bs : List Event} (ha : Plain c as) (hb : Plain c bs) : Plain c (as ++ bs)

theorem Plain.cons {d : Int} {es : List Event} (h : ¬ OutOfRange c d) (hs : Plain c es) :
    Plain c (.channel d :: es) := Plain.append (.channel h) hs

theorem Plain.empty_section : Plain c (hybrid_handlers.map_section []) :=
  .map_section (fun _ h => absurd h List.not_mem_nil)

theorem context_free_plain : Plain c (context_free c f) := by
  unfold context_free
  split
  · exact .nil
  · rename_i h
    exact .cons h .empty_section

theorem context_alloc_plain (e : AllocEnv) : Plain c (context_alloc c f e).events := by
  cases e with
  | no_context => exact .nil
  | bad_arguments => exact context_free_plain
  | table free =>
    simp only [context_alloc]
    split
    · exact context_free_plain
    · rename_i h
      split
      · exact .channel h
      · exact .cons h context_free_plain

theorem map_bufs_plain (bufs : List Bool) : Plain c (map_bufs bufs).events := by
  induction bufs with
  | nil => exact .nil
  | cons ok rest ih =>
    cases ok with
    | false => exact .empty_section
    | true => exact .append .empty_section ih

/-- The handles are mapped inside one section. -/
theorem map_handles_channels (handles : List Bool) :
    ∀ e ∈ (map_handles c f handles).events, ∃ d, e = .channel d ∧ ¬ OutOfRange c d := by
  induction handles with
  | nil => exact fun _ h => absurd h List.not_mem_nil
  | cons ok rest ih =>
    unfold map_handles
    split
    · exact fun _ h => absurd h List.not_mem_nil
    · rename_i hd
      split
      · intro e he
        rcases List.mem_cons.mp he with rfl | he
        · exact ⟨_, rfl, hd⟩
        · exact ih e he
      · intro e he
        rcases List.mem_singleton.mp he with rfl
        exact ⟨_, rfl, hd⟩

theorem get_args_plain (e : ArgsEnv) : Plain c (get_args c f e).events := by
  have hb := @map_bufs_plain c e.bufs
  have hh := Plain.map_section (@map_handles_channels c f e.handles)
  unfold get_args
  dsimp only
  split
  · exact hb
  · split
    · exact hb.append hh
    · exact (hb.append hh).append .empty_section

theorem invoke_send_plain (sent : Bool) : Plain c (hfastrpc_invoke_send c s f sent).events := by
  unfold hfastrpc_invoke_send
  split
  · exact .nil
  · rename_i h
    exact .channel h

theorem wait_for_completion_plain (hd : ¬ OutOfRange c f.domain) (rounds : List RspFlags) :
    Plain c (hfastrpc_wait_for_completion f rounds) := by
  induction rounds with
  | nil => exact .nil
  | cons flags rest ih =>
    unfold hfastrpc_wait_for_completion at ih ⊢
    rw [List.flatMap_cons]
    apply Plain.append
    · cases flags with
      | EARLY_RESPONSE => exact .channel hd
      | POLL_MODE => exact .channel hd
      | USER_EARLY_SIGNAL => exact .nil
      | COMPLETE_SIGNAL => exact .nil
      | NORMAL_RESPONSE => exact .nil
      | other => exact .nil
    · exact ih

theorem put_outbufs_plain (outbufs : List (Option Bool)) :
    Plain c (put_outbufs outbufs).events := by
  induction outbufs with
  | nil => exact .nil
  | cons out rest ih =>
    rcases out with _ | ok
    · exact .append .empty_section ih
    · cases ok with
      | false => exact .nil
      | true => exact ih

theorem put_args_plain (e : PutEnv) : Plain c (put_args e).events := by
  unfold put_args
  dsimp only
  split
  · exact put_outbufs_plain e.outbufs
  · exact (put_outbufs_plain e.outbufs).append .empty_section

theorem invoke_bail_plain {ctx : List Event} (h : Plain c ctx) (ok : Bool) :
    Plain c (invoke_bail c s f ctx ok).events := by
  unfold invoke_bail
  split
  · exact h
  · rename_i hd
    exact h.append (.cons hd (.cons hd (.channel hd)))

theorem invoke_wait_plain (hd : ¬ OutOfRange c f.domain) (e : InvokeEnv) :
    Plain c (invoke_wait c s f e).events := by
  have hw := wait_for_completion_plain hd e.rounds
  unfold invoke_wait
  dsimp only
  split
  · exact hw.append (invoke_bail_plain .nil _)
  · exact hw.append (invoke_bail_plain context_free_plain _)
  · exact hw.append (invoke_bail_plain context_free_plain _)
  · exact (hw.append (put_args_plain e.put)).append (invoke_bail_plain context_free_plain _)

theorem invoke_new_plain (hd : ¬ OutOfRange c f.domain) (e : InvokeEnv) :
    Plain c (invoke_new c s f e).events := by
  have ha := @context_alloc_plain c f e.alloc
  have hg := ha.append (@get_args_plain c f e.args)
  have ht := hg.append (@invoke_send_plain c s f e.sent)
  unfold invoke_new
  dsimp only
  split
  · exact ha.append (invoke_bail_plain .nil _)
  · split
    · exact hg.append (invoke_bail_plain context_free_plain _)
    · split
      · exact ht.append (invoke_bail_plain context_free_plain _)
      · split
        · exact ht
        · exact ht.append (invoke_wait_plain hd e)

/-- The check of the domain at the start of an invocation is enough for all of it. -/
theorem internal_invoke_plain (kernel : Bool) (e : InvokeEnv) :
    Plain c (hfastrpc_internal_invoke c s f kernel e).events := by
  unfold hfastrpc_internal_invoke
  split
  · exact invoke_bail_plain .nil _
  · rename_i hd
    split
    · exact invoke_new_plain hd e
    · split
      · exact invoke_bail_plain .nil _
      · split
        · exact invoke_bail_plain .nil _
        · exact invoke_wait_plain hd e
        · exact invoke_new_plain hd e

/-- A memory request of a session that is not initialised and that releases a mutex it has not
taken. -/
def SkipsLock (f : File) : MemReq → Prop
  | .mem_map _ | .mem_unmap _ => f.dsp_proc_init = false
  | _ => False

/-- A trace of a memory request that is in order. -/
def Guarded (c : Config) (es : List Event) : Prop :=
  es = [] ∨ ∃ body, Plain c body ∧
    es = mutex_lock .internal_map_mutex :: (body ++ [mutex_unlock .internal_map_mutex])

theorem mem_handler_guarded {body : List Event} (h : Plain c body) :
    Guarded c (mem_handler f [] body) := by
  unfold mem_handler
  split
  · exact Or.inl rfl
  · exact Or.inr ⟨body, h, rfl⟩

/-- A handler that leaves early with the release of a mutex. -/
theorem mem_handler_unlock {body : List Event} (h : Plain c body) :
    (f.dsp_proc_init = false ∧
      mem_handler f [mutex_unlock .internal_map_mutex] body =
        [mutex_unlock .internal_map_mutex]) ∨
    ¬ f.dsp_proc_init = false ∧
      Guarded c (mem_handler f [mutex_unlock .internal_map_mutex] body) := by
  unfold mem_handler
  split
  · exact Or.inl ⟨‹_›, rfl⟩
  · exact Or.inr ⟨‹_›, Or.inr ⟨body, h, rfl⟩⟩

/-- A memory request has no trace, has its trace under `internal_map_mutex`, or is only the
release of that. -/
theorem mem_request_cases (q : MemReq) :
    (SkipsLock f q ∧ mem_request c s f q = [mutex_unlock .internal_map_mutex]) ∨
    ¬ SkipsLock f q ∧ Guarded c (mem_request c s f q) := by
  have hinv := fun e => @internal_invoke_plain c s f true e
  have hsec := @Plain.empty_section c
  cases q with
  | mmap u =>
    refine Or.inr ⟨id, mem_handler_guarded ?_⟩
    cases u with
    | add_pages vaddrin buf_alloc e =>
      dsimp only
      split
      · exact .nil
      · exact hinv e
    | map mmap_create e =>
      apply Plain.append hsec
      split
      · exact .nil
      · apply Plain.append (hinv e)
        split
        · exact .nil
        · exact hsec
  | munmap u =>
    refine Or.inr ⟨id, mem_handler_guarded ?_⟩
    cases u with
    | buffer e => exact hinv e
    | not_found => exact hsec
    | map is_persistent e =>
      cases is_persistent with
      | true => exact hsec.append hsec
      | false => exact (hsec.append (hinv e)).append hsec
  | munmap_fd => exact Or.inr ⟨id, mem_handler_guarded hsec⟩
  | mem_map u =>
    apply mem_handler_unlock
    apply Plain.append hsec
    cases u with
    | create_failed => exact .nil
    | mapped_before => exact hsec
    | created e =>
      apply Plain.append (hinv e)
      split
      · exact .nil
      · exact hsec
  | mem_unmap u =>
    apply mem_handler_unlock
    apply Plain.append hsec
    cases u with
    | not_found => exact .nil
    | bad_flags => exact hsec
    | map e => exact (hinv e).append hsec

end plain

end virtual_fastrpc.hybrid_handlers
