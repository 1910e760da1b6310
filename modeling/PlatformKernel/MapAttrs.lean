-- The attribute words of the maps: where they come from, and who changes them.
-- A map gets the word of the request that makes it, and a request that finds
-- the map leaves its word alone.
import PlatformKernel.MapRuns

namespace virtual_fastrpc.map_table

open keyed

/-- What is left of a map: the same map, with the same fd and attributes. -/
def SameAttr (m m' : Map) : Prop := m'.id = m.id ∧ m'.fd = m.fd ∧ m'.attr = m.attr

theorem SameAttr.refl (m : Map) : SameAttr m m := ⟨rfl, rfl, rfl⟩

theorem SameAttr.trans {m m' m'' : Map} (h : SameAttr m m') (h' : SameAttr m' m'') :
    SameAttr m m'' :=
  ⟨h'.1.trans h.1, h'.2.1.trans h.2.1, h'.2.2.trans h.2.2⟩

theorem SameAttr.keep {m m' : Map} (h : SameAttr m m') (sh : AdsprpcShared) :
    m'.keep sh = m.keep sh := by
  simp [Map.keep, h.2.2]

theorem SameAttr.mmap_free {m m' : Map} (h : mmap_free false m = some m') : SameAttr m m' := by
  rcases mmap_free_cases m with ⟨_, he⟩ | ⟨_, _, _, _, he⟩
  · rw [he] at h
    cases h
    exact .refl m
  · rw [he] at h
    split at h
    · cases h
    · cases h
      exact ⟨rfl, rfl, rfl⟩

theorem SameAttr.dropCtx {m m' : Map} (h : m.dropCtx = some m') : SameAttr m m' := by
  obtain ⟨h1, h2, h3⟩ := SameAttr.mmap_free h
  exact ⟨h1, h2, h3⟩

theorem SameAttr.dropDma {m m' : Map} (h : m.dropDma = some m') : SameAttr m m' := by
  unfold Map.dropDma at h
  split at h
  · cases h
    exact .refl m
  · obtain ⟨h1, h2, h3⟩ := SameAttr.mmap_free h
    exact ⟨h1, h2, h3⟩

theorem SameAttr.clearDma {m m' : Map} (h : m.clearDma = some m') : SameAttr m m' := by
  unfold Map.clearDma at h
  split at h
  · cases h
    exact .refl m
  · obtain ⟨h1, h2, h3⟩ := SameAttr.mmap_free h
    exact ⟨h1, h2, h3⟩

/-! ## The words of new maps -/

/-- The word of a map that vfastrpc_mmap_create makes, and no word when it finds a map or fails. -/
def new_word (d : Driver) (sh : AdsprpcShared) (t : Table) (fd : Int) (attr : BitVec 32)
    (va len : BitVec 64) (mflags : BitVec 32) (buf : Option Nat) (env : CreateEnv) :
    List (BitVec 32) :=
  match (mmap_create d sh t fd attr va len mflags buf env).2 with
  | .ok id => if id = t.next then [attr] else []
  | .error _ => []

/-- The words of the maps that the loop over the dma handles makes. -/
def handle_words (d : Driver) (sh : AdsprpcShared) (cap : Bool) (fdtable : Int → Option Nat) :
    Table → List Arg → List (BitVec 32)
  | _, [] => []
  | t, a :: as =>
    match handleFd d cap a with
    | none => handle_words d sh cap fdtable t as
    | some fd =>
      new_word d sh t fd (handleAttr d sh a) 0 0 (handleFlags d sh a) (fdtable fd) a.env ++
        match mmap_create d sh t fd (handleAttr d sh a) 0 0 (handleFlags d sh a) (fdtable fd)
          a.env with
        | (t, .ok id) =>
          handle_words d sh cap fdtable { t with maps := update Map.id t.maps id .addDma } as
        | (_, .error _) => []

/-- The words of the maps that a step makes. -/
def new_words (d : Driver) (sh : AdsprpcShared) (s : Session) : Act → List (BitVec 32)
  | .get_buf _ a =>
    match bufFd d a with
    | some fd => new_word d sh s.table fd a.attr a.pv a.len 0 (s.fdtable fd) a.env
    | none => []
  | .get_handles _ cap as => handle_words d sh cap s.fdtable s.table as
  | .mmap fd va len flags env => new_word d sh s.table fd 0 va len flags (s.fdtable fd) env
  | .mem_map fd attrs va len flags env =>
    new_word d sh s.table fd attrs va len flags (s.fdtable fd) env
  | _ => []

/-- Each map of `t'` is one of `t` with the attributes it had, or it is new and has a word of
the list. -/
structure Worded (ws : List (BitVec 32)) (t t' : Table) : Prop where
  next : t.next ≤ t'.next
  maps : Lineage SameAttr (fun m => t.next ≤ m.id ∧ m.attr ∈ ws) t.maps t'.maps

theorem Worded.refl (ws : List (BitVec 32)) (t : Table) : Worded ws t t :=
  ⟨Nat.le_refl _, .refl SameAttr.refl t.maps⟩

theorem Worded.trans {ws ws' : List (BitVec 32)} {t t' t'' : Table} (h : Worded ws t t')
    (h' : Worded ws' t' t'') : Worded (ws ++ ws') t t'' := by
  refine ⟨Nat.le_trans h.next h'.next, h.maps.trans h'.maps (fun _ _ _ => .trans) ?_ ?_⟩
  · rintro m m' ⟨hid, hw⟩ ⟨h1, _, h3⟩
    rw [h1, h3]
    exact ⟨hid, List.mem_append_left _ hw⟩
  · rintro m ⟨hid, hw⟩
    exact ⟨Nat.le_trans h.next hid, List.mem_append_right _ hw⟩

/-- A change of the table that makes no map. -/
theorem Worded.change {ws : List (BitVec 32)} {t t' t'' : Table} (h : Worded ws t t')
    (h' : Worded [] t' t'') : Worded ws t t'' := by
  have := h.trans h'
  rwa [List.append_nil] at this

theorem Worded.alter {ws : List (BitVec 32)} (t : Table) (id : Nat) {f : Map → Option Map}
    (hf : ∀ m m', f m = some m' → SameAttr m m') :
    Worded ws t { t with maps := alter Map.id t.maps id f } :=
  ⟨Nat.le_refl _, .alter t.maps id SameAttr.refl hf⟩

theorem Worded.update {ws : List (BitVec 32)} (t : Table) (id : Nat) {f : Map → Map}
    (hf : ∀ m, SameAttr m (f m)) :
    Worded ws t { t with maps := update Map.id t.maps id f } :=
  ⟨Nat.le_refl _, .update t.maps id SameAttr.refl hf⟩

theorem Worded.create (d : Driver) (sh : AdsprpcShared) (t : Table) (fd : Int) (attr : BitVec 32)
    (va len : BitVec 64) (mflags : BitVec 32) (buf : Option Nat) (env : CreateEnv) :
    Worded (new_word d sh t fd attr va len mflags buf env) t
      (mmap_create d sh t fd attr va len mflags buf env).1 := by
  rcases create_cases d sh t fd attr va len mflags buf env with
    ⟨m, _, _, he⟩ | ⟨b, _, _, he⟩ | ⟨n, e, hn, he⟩
  · rw [he]
    exact .update t m.id (f := .addRef) (fun m => ⟨rfl, rfl, rfl⟩)
  · have hw : new_word d sh t fd attr va len mflags buf env = [attr] := by
      unfold new_word
      rw [he]
      simp
    rw [hw, he]
    refine ⟨Nat.le_succ _, ?_⟩
    intro m hm
    rcases List.mem_cons.mp hm with rfl | hm
    · exact Or.inr ⟨Nat.le_refl _, List.mem_singleton.mpr rfl⟩
    · exact Or.inl ⟨m, hm, .refl m⟩
  · rw [he]
    exact ⟨hn, .refl SameAttr.refl t.maps⟩

theorem Worded.get_args_buf (d : Driver) (sh : AdsprpcShared) (s : Session) (c : Nat) (a : Arg) :
    Worded (new_words d sh s (.get_buf c a)) s.table
      (get_args_buf d sh s.fdtable s.table a).1 := by
  unfold map_table.get_args_buf
  simp only [new_words]
  cases bufFd d a with
  | none => exact .refl [] s.table
  | some fd =>
    have hc := Worded.create d sh s.table fd a.attr a.pv a.len 0 (s.fdtable fd) a.env
    dsimp only
    split
    · rename_i t' id he
      rw [he] at hc
      exact hc.change (.update t' id (f := .addCtx) (fun m => ⟨rfl, rfl, rfl⟩))
    · rename_i t' e he
      rw [he] at hc
      exact hc

theorem Worded.undo_handles (t : Table) (taken : List Nat) :
    Worded [] t { t with maps := undo_handles t.maps taken } := by
  refine undo_handles_keeps (Q := fun maps => Worded [] t { t with maps }) ?_ (.refl [] t) taken
  intro maps id h
  exact h.change (.alter { t with maps } id (fun _ _ => SameAttr.dropDma))

theorem Worded.get_args_handles (d : Driver) (sh : AdsprpcShared) (cap : Bool)
    (fdtable : Int → Option Nat) (t : Table) (taken : List Nat) (as : List Arg) :
    Worded (handle_words d sh cap fdtable t as) t
      (get_args_handles d sh cap fdtable t taken as).1 := by
  induction as generalizing t taken with
  | nil => exact .refl [] t
  | cons a as ih =>
    unfold map_table.get_args_handles handle_words
    cases handleFd d cap a with
    | none => exact ih t taken
    | some fd =>
      have hc := Worded.create d sh t fd (handleAttr d sh a) 0 0 (handleFlags d sh a) (fdtable fd)
        a.env
      rcases he : mmap_create d sh t fd (handleAttr d sh a) 0 0 (handleFlags d sh a)
        (fdtable fd) a.env
        with ⟨t', e | id⟩
      · rw [he] at hc
        simp only [he, List.append_nil]
        exact hc.change (.undo_handles t' taken)
      · rw [he] at hc
        simp only [he]
        exact (hc.change (.update t' id (f := .addDma) (fun m => ⟨rfl, rfl, rfl⟩))).trans (ih _ _)

theorem Worded.release_buf (t : Table) (p : Option Nat) :
    Worded [] t { t with maps := release_buf t.maps p } := by
  cases p with
  | none => exact .refl [] t
  | some id => exact .alter t id (fun _ _ => SameAttr.dropCtx)

theorem Worded.context_free (t : Table) (bufs : List (Option Nat)) :
    Worded [] t { t with maps := context_free t.maps bufs } := by
  induction bufs generalizing t with
  | nil => exact .refl [] t
  | cons p bufs ih => exact (Worded.release_buf t p).change (ih _)

theorem Worded.put_args_fdlist (t : Table) (fdlist : List (BitVec 64)) :
    Worded [] t { t with maps := put_args_fdlist t.maps fdlist } := by
  refine put_args_fdlist_keeps (Q := fun maps => Worded [] t { t with maps }) ?_ (.refl [] t) fdlist
  intro maps id h
  exact h.change (.alter { t with maps } id (fun _ _ => SameAttr.clearDma))

/-! ## Maps that stay -/

/-- Each map with the property is still there, with its attributes. -/
def Stay (P : Map → Prop) (maps maps' : List Map) : Prop :=
  ∀ m ∈ maps, P m → ∃ m' ∈ maps', SameAttr m m'

variable {P : Map → Prop}

theorem Stay.refl (maps : List Map) : Stay P maps maps := fun m hm _ => ⟨m, hm, .refl m⟩

theorem Stay.trans {maps maps' maps'' : List Map} (h : Stay P maps maps')
    (h' : Stay P maps' maps'') (hP : ∀ m m', SameAttr m m' → P m → P m') :
    Stay P maps maps'' := by
  intro m hm hp
  obtain ⟨m', hm', hs⟩ := h m hm hp
  obtain ⟨m'', hm'', hs'⟩ := h' m' hm' (hP m m' hs hp)
  exact ⟨m'', hm'', hs.trans hs'⟩

theorem Stay.alter {maps : List Map} {id : Nat} {f : Map → Option Map}
    (hf : ∀ m ∈ maps, m.id = id → P m → ∃ m', f m = some m' ∧ SameAttr m m') :
    Stay P maps (alter Map.id maps id f) := by
  intro m hm hp
  by_cases hid : m.id = id
  · obtain ⟨m', he, hs⟩ := hf m hm hid hp
    exact ⟨m', mem_alter.mpr (Or.inr ⟨m, hm, hid, he⟩), hs⟩
  · exact ⟨m, mem_alter.mpr (Or.inl ⟨hm, hid⟩), .refl m⟩

theorem Stay.update (maps : List Map) (id : Nat) {f : Map → Map} (hf : ∀ m, SameAttr m (f m)) :
    Stay P maps (update Map.id maps id f) := by
  rw [update_eq_alter]
  exact .alter (fun m _ _ _ => ⟨f m, rfl, hf m⟩)

theorem Stay.create (d : Driver) (sh : AdsprpcShared) (t : Table) (fd : Int) (attr : BitVec 32)
    (va len : BitVec 64) (mflags : BitVec 32) (buf : Option Nat) (env : CreateEnv) :
    Stay P t.maps (mmap_create d sh t fd attr va len mflags buf env).1.maps := by
  rcases create_cases d sh t fd attr va len mflags buf env with
    ⟨m, _, _, he⟩ | ⟨b, _, _, he⟩ | ⟨n, e, _, he⟩
  · rw [he]
    exact .update t.maps m.id (f := .addRef) (fun m => ⟨rfl, rfl, rfl⟩)
  · rw [he]
    exact fun m hm _ => ⟨m, List.mem_cons_of_mem _ hm, .refl m⟩
  · rw [he]
    exact .refl t.maps

/-! ## The steps of an invoke -/

def isInvoke : Act → Bool
  | .set_fd _ _ | .context_alloc _ _ | .get_buf _ _ | .get_handles _ _ _ | .put_buf _ _
  | .put_fdlist _ _ | .context_free _ => true
  | _ => false

/-- A step of an invoke leaves each map its attributes, and has no part in the map calls. -/
theorem invoke_worded (d : Driver) (sh : AdsprpcShared) {s t : Session} {a : Act}
    (hi : isInvoke a = true) (ht : step d sh s a = some t) :
    Worded (new_words d sh s a) s.table t.table ∧ t.op = s.op := by
  cases a with
  | set_fd fd buf =>
    cases ht
    exact ⟨.refl _ s.table, rfl⟩
  | context_alloc inbufs outbufs =>
    cases ht
    exact ⟨.refl _ s.table, rfl⟩
  | get_buf c a =>
    obtain ⟨x, _, _, _, rfl⟩ := onCtx_some ht
    have hw := Worded.get_args_buf d sh s c a
    rw [← get_buf_table d sh s x a] at hw
    exact ⟨hw, get_buf_op d sh s x a⟩
  | get_handles c cap as =>
    obtain ⟨x, _, _, _, rfl⟩ := onCtx_some ht
    have hw := Worded.get_args_handles d sh cap s.fdtable s.table [] as
    rw [← get_handles_table d sh s x cap as] at hw
    exact ⟨hw, get_handles_op d sh s x cap as⟩
  | put_buf c i =>
    obtain ⟨x, _, _, _, rfl⟩ := onCtx_some ht
    exact ⟨.release_buf s.table (x.maps.getD i none), rfl⟩
  | put_fdlist c fdlist =>
    obtain ⟨x, _, _, _, rfl⟩ := onCtx_some ht
    exact ⟨.put_args_fdlist s.table fdlist, rfl⟩
  | context_free c =>
    obtain ⟨x, _, _, _, rfl⟩ := onCtx_some ht
    exact ⟨.context_free s.table x.maps, rfl⟩
  | _ => cases hi

end virtual_fastrpc.map_table
