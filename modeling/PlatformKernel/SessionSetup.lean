-- What a GETINFO or a session info that fails leaves of its session. Both
-- write while they check: the session info its id, GETINFO the mark that it
-- has been asked.
import PlatformKernel.Sessions

namespace virtual_fastrpc.session_setup

open virtual_fastrpc.sessions

/-! ## The law and its condition -/

/-- The two requests that set a session up. -/
def isSetup : Req → Bool
  | .getinfo .. | .sess_info .. => true
  | _ => false

/-- The identity of a session. -/
def SameIdentity (f g : File) : Prop :=
  f.sessionid = g.sessionid ∧ f.multi_session_support = g.multi_session_support ∧
  f.domain = g.domain ∧ f.cid = g.cid ∧ f.ssrcount = g.ssrcount ∧ f.tgid_frpc = g.tgid_frpc ∧
  f.set_session_info = g.set_session_info

instance (f g : File) : Decidable (SameIdentity f g) :=
  inferInstanceAs (Decidable (_ ∧ _ ∧ _ ∧ _ ∧ _ ∧ _ ∧ _))

/-- The session with the mark of an untrusted process, as the checks of the session info see
it. -/
def trustChecked (f : File) (e : SetupEnv) : File :=
  { f with untrusted_process := f.untrusted_process || decide (e.tgid ≠ f.tgid_open) }

/-- The request is refused before it has written anything else than what is there: by its
copy from the user, because the session is set up, or by the checks of the session info. The
hybrid driver asks whether the session is set up only after it has written the session id. -/
def RefusedEarly (c : Config) (f : File) : Req → Prop
  | .getinfo copy_in _ _ _ => copy_in = false ∨ f.set_session_info = true
  | .sess_info size_ok copy_in i e _ =>
    size_ok = false ∨ copy_in = false ∨ sess_info_bad c (trustChecked f e) i = true ∨
    f.set_session_info = true ∧ (c.driver = .hybrid →
      f.sessionid = i.session_id ∧ f.multi_session_support = true)
  | _ => True

/-! ## GETINFO -/

section steps

variable {c : Config} {s : Apps} {f : File}

/-- A session that is set up is left alone. -/
theorem get_info_again (h : f.set_session_info = true) (domain : Nat) (e : SetupEnv) :
    get_info c s f domain e = ⟨s, f, some .EBADR⟩ := by
  unfold get_info hfastrpc_get_info vfastrpc_internal_get_info
  cases c.driver <;> simp [h]

/-- GETINFO marks the session first, whatever it finds then. -/
theorem get_info_marks (h : f.set_session_info = false) (domain : Nat) (e : SetupEnv) :
    (get_info c s f domain e).file.set_session_info = true := by
  obtain ⟨usage, tf, u, db, err, hspec⟩ :=
    set_process_info_spec c s { f with set_session_info := true } e
  unfold get_info
  split
  · unfold hfastrpc_get_info
    simp only [h, Bool.false_eq_true, if_false, hspec]
    repeat' split
    all_goals rfl
  · unfold vfastrpc_internal_get_info
    simp only [h, Bool.false_eq_true, if_false, hspec]
    repeat' split
    all_goals rfl

theorem SameIdentity.refl (f : File) : SameIdentity f f := ⟨rfl, rfl, rfl, rfl, rfl, rfl, rfl⟩

/-- A request that has marked the session is not without a trace. -/
theorem not_same_of_marked {g : File} (h : f.set_session_info = false)
    (hg : g.set_session_info = true) : ¬ SameIdentity f g := by
  rintro ⟨_, _, _, _, _, _, hs⟩
  rw [h, hg] at hs
  cases hs

/-- GETINFO ends with its copy to the user, which does not write the session either. -/
theorem getinfo_file (domain : Nat) (e : SetupEnv)
    (copy_out : Bool) :
    (vfastrpc_ioctl c s f (.getinfo true domain e copy_out)).file =
      (get_info c s f domain e).file := by
  simp only [vfastrpc_ioctl, Bool.true_eq_false, if_false]
  split
  · rfl
  · split <;> rfl

/-- What is left of the session after a GETINFO that got its copy from the user. -/
theorem same_get_info_iff (domain : Nat) (e : SetupEnv) :
    SameIdentity f (get_info c s f domain e).file ↔ f.set_session_info = true := by
  cases hset : f.set_session_info with
  | true =>
    rw [get_info_again hset]
    simp [SameIdentity.refl]
  | false =>
    have hnot := not_same_of_marked hset (get_info_marks (c := c) (s := s) hset domain e)
    simp [hnot]

/-! ## The session info -/

/-- The session after the writes that come before GETINFO. -/
def withSessionId (f : File) (i : SessInfo) (e : SetupEnv) : File :=
  { trustChecked f e with sessionid := i.session_id, multi_session_support := true }

theorem body_eq (i : SessInfo) (e : SetupEnv) (copy_out : Bool) :
    set_session_info_body c s f i e copy_out =
      if sess_info_bad c (trustChecked f e) i = true then ⟨s, trustChecked f e, some .EBADR⟩
      else
        let r := get_info c s (withSessionId f i e) i.domain_id e
        match r.err with
        | some err => ⟨r.apps, r.file, some err⟩
        | none => if copy_out then r else ⟨r.apps, r.file, some .VERIFY⟩ := rfl

/-- The copy to the user at the end does not write the session. -/
theorem body_file (i : SessInfo) (e : SetupEnv) (copy_out : Bool) :
    (set_session_info_body c s f i e copy_out).file =
      if sess_info_bad c (trustChecked f e) i = true then trustChecked f e
      else (get_info c s (withSessionId f i e) i.domain_id e).file := by
  rw [body_eq]
  dsimp only
  split
  · rfl
  · split
    · rfl
    · split <;> rfl

theorem same_body_iff (i : SessInfo) (e : SetupEnv) (copy_out : Bool) :
    SameIdentity f (set_session_info_body c s f i e copy_out).file ↔
      sess_info_bad c (trustChecked f e) i = true ∨
      f.set_session_info = true ∧ f.sessionid = i.session_id ∧
        f.multi_session_support = true := by
  rw [body_file]
  by_cases hbad : sess_info_bad c (trustChecked f e) i = true
  · simp only [hbad, if_true, true_or, iff_true]
    exact ⟨rfl, rfl, rfl, rfl, rfl, rfl, rfl⟩
  · simp only [hbad, Bool.false_eq_true, false_or]
    cases hset : f.set_session_info with
    | true =>
      have hset' : (withSessionId f i e).set_session_info = true := hset
      rw [get_info_again hset']
      simp [SameIdentity, withSessionId, trustChecked]
    | false =>
      have hset' : (withSessionId f i e).set_session_info = false := hset
      have hmark := get_info_marks (c := c) (s := s) hset' i.domain_id e
      simp [not_same_of_marked hset hmark]

theorem same_session_info_iff (i : SessInfo) (e : SetupEnv) (copy_out : Bool) :
    SameIdentity f (set_session_info c s f i e copy_out).file ↔
      sess_info_bad c (trustChecked f e) i = true ∨
      f.set_session_info = true ∧ (c.driver = .hybrid →
        f.sessionid = i.session_id ∧ f.multi_session_support = true) := by
  unfold set_session_info
  split
  · rename_i hd
    unfold hfastrpc_set_session_info
    simp [same_body_iff, hd]
  · rename_i hd
    unfold vfastrpc_set_session_info
    by_cases hset : f.set_session_info = true
    · simp [hset, hd, SameIdentity.refl]
    · simp [hset, same_body_iff]

/-- The checks of the session info, and a session that is set up, end the request with an
error. -/
theorem session_info_refused {i : SessInfo} {e : SetupEnv}
    (h : sess_info_bad c (trustChecked f e) i = true ∨ f.set_session_info = true)
    (copy_out : Bool) : (set_session_info c s f i e copy_out).err ≠ none := by
  have hbody : (set_session_info_body c s f i e copy_out).err ≠ none := by
    rw [body_eq]
    by_cases hbad : sess_info_bad c (trustChecked f e) i = true
    · simp [hbad]
    · have hset : (withSessionId f i e).set_session_info = true := h.resolve_left hbad
      simp [hbad, get_info_again hset]
  unfold set_session_info
  split
  · exact hbody
  · unfold vfastrpc_set_session_info
    split
    · simp
    · exact hbody

end steps

/-! ## The law -/

/-- A request that sets a session up leaves its identity exactly when it is refused early, and
a request that is refused early fails. -/
theorem a_setup_leaves_the_session_iff (c : Config) (s : Apps) (f : File) (q : Req)
    (hq : isSetup q = true) :
    (RefusedEarly c f q → (vfastrpc_ioctl c s f q).err ≠ none) ∧
    (SameIdentity f (vfastrpc_ioctl c s f q).file ↔ RefusedEarly c f q) := by
  cases q with
  | getinfo copy_in domain e copy_out =>
    cases copy_in with
    | false => simp [vfastrpc_ioctl, RefusedEarly, SameIdentity.refl]
    | true =>
      refine ⟨?_, ?_⟩
      · intro h
        have hset : f.set_session_info = true := by simpa [RefusedEarly] using h
        simp [vfastrpc_ioctl, get_info_again hset]
      · rw [getinfo_file, same_get_info_iff]
        simp [RefusedEarly]
  | sess_info size_ok copy_in i e copy_out =>
    by_cases hcopy : size_ok = false ∨ copy_in = false
    · rcases hcopy with rfl | rfl
      · simp [vfastrpc_ioctl, RefusedEarly, SameIdentity.refl]
      · cases size_ok <;> simp [vfastrpc_ioctl, RefusedEarly, SameIdentity.refl]
    · obtain ⟨rfl, rfl⟩ : size_ok = true ∧ copy_in = true := by simpa using hcopy
      refine ⟨?_, ?_⟩
      · intro h
        simp only [RefusedEarly, Bool.true_eq_false, false_or] at h
        simp only [vfastrpc_ioctl, Bool.true_eq_false, if_false]
        exact session_info_refused (h.imp_right And.left) copy_out
      · simp only [vfastrpc_ioctl, RefusedEarly, Bool.true_eq_false, if_false, false_or]
        exact same_session_info_iff i e copy_out
  | mode_session => cases hq
  | init copy_in u e => cases hq
  | get_dsp_info copy_in domain attribute_ID a copy_out => cases hq

/-- A second GETINFO of a session that is set up. -/
theorem a_second_getinfo_leaves_the_session :
    let c := sampleConfig .virtio
    let r := vfastrpc_ioctl c (init c) (file_alloc 1 .MINOR_NUM_DEV 50)
      (.getinfo true 3 ⟨50, true, true⟩ true)
    let r' := vfastrpc_ioctl c r.apps r.file (.getinfo true 4 ⟨50, true, true⟩ true)
    r.err = none ∧ r.file.domain = 3 ∧ r'.err ≠ none ∧ SameIdentity r.file r'.file := by
  intro c r r'
  have h := a_setup_leaves_the_session_iff c r.apps r.file
    (.getinfo true 4 ⟨50, true, true⟩ true) rfl
  have hearly : RefusedEarly c r.file (.getinfo true 4 ⟨50, true, true⟩ true) := Or.inr rfl
  exact ⟨rfl, rfl, h.1 hearly, h.2.mpr hearly⟩

/-- In both drivers a GETINFO of a bad domain marks a new session, and no correct one may
follow. In the hybrid driver a second session info gives the session another id. -/
theorem a_failed_setup_changes_the_session :
    (∀ d,
      let c := sampleConfig d
      let f := file_alloc 1 .MINOR_NUM_DEV 50
      let r := vfastrpc_ioctl c (init c) f (.getinfo true 9 ⟨50, true, true⟩ true)
      r.err = some .VERIFY ∧ ¬ SameIdentity f r.file ∧
        (vfastrpc_ioctl c r.apps r.file (.getinfo true 3 ⟨50, true, true⟩ true)).err =
          some .EBADR) ∧
    (let c := sampleConfig .hybrid
      let r := vfastrpc_ioctl c (init c) (file_alloc 1 .MINOR_NUM_DEV 50)
        (.sess_info true true ⟨3, 1, 7⟩ ⟨50, true, true⟩ true)
      let r' := vfastrpc_ioctl c r.apps r.file
        (.sess_info true true ⟨3, 2, 7⟩ ⟨50, true, true⟩ true)
      r.err = none ∧ r.file.sessionid = 1 ∧ r'.err = some .EBADR ∧ r'.file.sessionid = 2) := by
  refine ⟨?_, by decide⟩
  intro d
  cases d <;> decide

end virtual_fastrpc.session_setup
