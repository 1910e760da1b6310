-- The hash lists of the Linux kernel, with their pointers: a head that points
-- to the first node, and nodes that point to the next one and to the pointer
-- that points to them. A node without the second pointer is unhashed.
import Mathlib.Logic.Function.Basic
import Mathlib.Data.List.Nodup
import Mathlib.Tactic.Common

namespace hlist

/-- The place of a pointer to a node: in the head, or in the node `n`. -/
inductive Link
  | head
  | next (n : Nat)
  deriving DecidableEq, Repr

/-- A list head, and the nodes that may come on its list. -/
structure Hlist where
  first : Option Nat
  next : Nat → Option Nat
  pprev : Nat → Option Link

def HLIST_HEAD_INIT : Hlist := ⟨none, fun _ => none, fun _ => none⟩

def INIT_HLIST_NODE (h : Hlist) (n : Nat) : Hlist :=
  { h with next := Function.update h.next n none, pprev := Function.update h.pprev n none }

/-- A node that is on no list and counts as hashed: it points to itself. -/
def hlist_add_fake (h : Hlist) (n : Nat) : Hlist :=
  { h with pprev := Function.update h.pprev n (some (.next n)) }

def hlist_fake (h : Hlist) (n : Nat) : Bool := h.pprev n == some (.next n)

def hlist_unhashed (h : Hlist) (n : Nat) : Bool := (h.pprev n).isNone

/-- The assignment to the back pointer of a node, if there is one. -/
def setPprev (h : Hlist) (n : Option Nat) (l : Link) : Hlist :=
  match n with
  | some m => { h with pprev := Function.update h.pprev m (some l) }
  | none => h

def hlist_add_head (h : Hlist) (n : Nat) : Hlist :=
  let first := h.first
  let h := setPprev { h with next := Function.update h.next n first } first (.next n)
  { h with first := some n, pprev := Function.update h.pprev n (some .head) }

/-- The assignment to the pointer that a link names. -/
def setLink (h : Hlist) (l : Link) (p : Option Nat) : Hlist :=
  match l with
  | .head => { h with first := p }
  | .next n => { h with next := Function.update h.next n p }

def hlist_del_init (h : Hlist) (n : Nat) : Hlist :=
  match h.pprev n with
  | none => h
  | some l => INIT_HLIST_NODE (setPprev (setLink h l (h.next n)) (h.next n) l) n

/-! ## The list of the nodes -/

/-- The nodes of `l` follow each other from the pointer `p`, whose place is `k`. -/
def Chain (h : Hlist) : Option Nat → Link → List Nat → Prop
  | p, _, [] => p = none
  | p, k, x :: xs => p = some x ∧ h.pprev x = some k ∧ Chain h (h.next x) (.next x) xs

/-- The list holds these nodes, each of them once, and ends. -/
def Holds (h : Hlist) (l : List Nat) : Prop := Chain h h.first .head l ∧ l.Nodup

theorem holds_init : Holds HLIST_HEAD_INIT [] := ⟨rfl, List.nodup_nil⟩

/-- A chain looks at the pointers of its own nodes only. -/
theorem Chain.congr {h g : Hlist} {p : Option Nat} {k : Link} {l : List Nat} (hc : Chain h p k l)
    (hnext : ∀ x ∈ l, g.next x = h.next x) (hprev : ∀ x ∈ l, g.pprev x = h.pprev x) :
    Chain g p k l := by
  induction l generalizing p k with
  | nil => exact hc
  | cons x xs ih =>
    obtain ⟨hp, hk, hxs⟩ := hc
    refine ⟨hp, (hprev x List.mem_cons_self).trans hk, ?_⟩
    rw [hnext x List.mem_cons_self]
    exact ih hxs (fun y hy => hnext y (List.mem_cons_of_mem _ hy))
      (fun y hy => hprev y (List.mem_cons_of_mem _ hy))

/-- The back pointer of a node of a chain is set, and is not to the node itself. -/
theorem Chain.linked {h : Hlist} {p : Option Nat} {k : Link} {l : List Nat} (hc : Chain h p k l)
    (hk : ∀ x ∈ l, k ≠ .next x) (hnodup : l.Nodup) :
    ∀ x ∈ l, hlist_unhashed h x = false ∧ hlist_fake h x = false := by
  induction l generalizing p k with
  | nil => intro x hx; cases hx
  | cons y ys ih =>
    obtain ⟨_, hprev, hys⟩ := hc
    obtain ⟨hy, hnodup⟩ := List.nodup_cons.mp hnodup
    intro x hx
    rcases List.mem_cons.mp hx with rfl | hx
    · have hkx := hk x List.mem_cons_self
      simp [hlist_unhashed, hlist_fake, hprev, hkx]
    · refine ih hys (fun z hz he => ?_) hnodup x hx
      cases he
      exact hy hz

theorem Holds.linked {h : Hlist} {l : List Nat} (hl : Holds h l) :
    ∀ x ∈ l, hlist_unhashed h x = false ∧ hlist_fake h x = false :=
  hl.1.linked (fun _ _ => nofun) hl.2

theorem Chain.unique {h : Hlist} {p : Option Nat} {k : Link} {l l' : List Nat}
    (hc : Chain h p k l) (hc' : Chain h p k l') : l = l' := by
  induction l generalizing p k l' with
  | nil =>
    cases l' with
    | nil => rfl
    | cons y ys => exact absurd (hc.symm.trans hc'.1) nofun
  | cons x xs ih =>
    cases l' with
    | nil => exact absurd (hc.1.symm.trans hc') nofun
    | cons y ys =>
      cases hc.1.symm.trans hc'.1
      rw [ih hc.2.2 hc'.2.2]

/-- The pointers name one list only. -/
theorem Holds.unique {h : Hlist} {l l' : List Nat} (hl : Holds h l) (hl' : Holds h l') : l = l' :=
  hl.1.unique hl'.1

theorem Holds.first {h : Hlist} {l : List Nat} (hl : Holds h l) : h.first = l.head? := by
  cases l with
  | nil => exact hl.1
  | cons x xs => exact hl.1.1

/-- A node that is not on the list comes to its front. -/
theorem Holds.add_head {h : Hlist} {l : List Nat} (hl : Holds h l) {n : Nat} (hn : n ∉ l) :
    Holds (hlist_add_head h n) (n :: l) := by
  obtain ⟨hc, hnodup⟩ := hl
  refine ⟨⟨rfl, by simp [hlist_add_head], ?_⟩, List.nodup_cons.mpr ⟨hn, hnodup⟩⟩
  cases l with
  | nil =>
    have hfirst : h.first = none := hc
    simp [hlist_add_head, setPprev, hfirst, Chain]
  | cons f xs =>
    obtain ⟨hfirst, _, hxs⟩ := hc
    obtain ⟨hnf, hnxs⟩ : n ≠ f ∧ n ∉ xs := by simpa using hn
    have hfxs : f ∉ xs := (List.nodup_cons.mp hnodup).1
    have hother : ∀ x, x ≠ n → x ≠ f → (hlist_add_head h n).next x = h.next x ∧
        (hlist_add_head h n).pprev x = h.pprev x := by
      intro x hx hxf
      simp [hlist_add_head, setPprev, hfirst, hx, hxf]
    refine ⟨?_, ?_, ?_⟩
    · simp [hlist_add_head, setPprev, hfirst]
    · simp [hlist_add_head, setPprev, hfirst, hnf.symm]
    · have hnext : (hlist_add_head h n).next f = h.next f := by
        simp [hlist_add_head, setPprev, hfirst, hnf.symm]
      rw [hnext]
      apply hxs.congr
      · intro x hx
        exact (hother x (fun he => hnxs (he ▸ hx)) (fun he => hfxs (he ▸ hx))).1
      · intro x hx
        exact (hother x (fun he => hnxs (he ▸ hx)) (fun he => hfxs (he ▸ hx))).2

/-- The first node goes. -/
theorem Holds.del_first {h : Hlist} {n : Nat} {l : List Nat} (hl : Holds h (n :: l)) :
    Holds (hlist_del_init h n) l := by
  obtain ⟨⟨_, hprev, hc⟩, hnodup⟩ := hl
  obtain ⟨hn, hnodup⟩ := List.nodup_cons.mp hnodup
  refine ⟨?_, hnodup⟩
  unfold hlist_del_init
  rw [hprev]
  cases l with
  | nil =>
    have hnext : h.next n = none := hc
    simp [hnext, setPprev, setLink, INIT_HLIST_NODE, Chain]
  | cons f xs =>
    obtain ⟨hnext, _, hxs⟩ := hc
    obtain ⟨hnf, hnxs⟩ : n ≠ f ∧ n ∉ xs := by simpa using hn
    have hfxs : f ∉ xs := (List.nodup_cons.mp hnodup).1
    rw [hnext]
    refine ⟨by simp [setPprev, setLink, INIT_HLIST_NODE], ?_, ?_⟩
    · simp [setPprev, setLink, INIT_HLIST_NODE, hnf.symm]
    · have hf : (INIT_HLIST_NODE (setPprev (setLink h .head (some f)) (some f) .head) n).next f =
          h.next f := by
        simp [setPprev, setLink, INIT_HLIST_NODE, hnf.symm]
      rw [hf]
      apply hxs.congr
      · intro x hx
        have hxn : x ≠ n := fun he => hnxs (he ▸ hx)
        simp [setPprev, setLink, INIT_HLIST_NODE, hxn]
      · intro x hx
        have hxn : x ≠ n := fun he => hnxs (he ▸ hx)
        have hxf : x ≠ f := fun he => hfxs (he ▸ hx)
        simp [setPprev, setLink, INIT_HLIST_NODE, hxn, hxf]

/-! ## Hashed nodes -/

/-- A node that comes to a list is hashed, and the others stay as they are. -/
theorem unhashed_add_head {h : Hlist} {l : List Nat} (hl : Holds h l) (n m : Nat) :
    hlist_unhashed (hlist_add_head h n) m = (hlist_unhashed h m && decide (m ≠ n)) := by
  by_cases hm : m = n
  · simp [hlist_unhashed, hlist_add_head, hm]
  · cases l with
    | nil =>
      have hfirst : h.first = none := hl.1
      simp [hlist_unhashed, hlist_add_head, setPprev, hfirst, hm]
    | cons f xs =>
      obtain ⟨hfirst, hprev, _⟩ := hl.1
      by_cases hmf : m = f
      · subst hmf
        simp [hlist_unhashed, hlist_add_head, setPprev, hfirst, hm, hprev]
      · simp [hlist_unhashed, hlist_add_head, setPprev, hfirst, hm, hmf]

/-- The first node of a list is unhashed when it is deleted, and the others stay as they
are. -/
theorem unhashed_del_first {h : Hlist} {n : Nat} {l : List Nat} (hl : Holds h (n :: l)) (m : Nat) :
    hlist_unhashed (hlist_del_init h n) m = (hlist_unhashed h m || decide (m = n)) := by
  obtain ⟨⟨_, hprev, hc⟩, hnodup⟩ := hl
  obtain ⟨hn, _⟩ := List.nodup_cons.mp hnodup
  unfold hlist_del_init
  rw [hprev]
  by_cases hm : m = n
  · simp [hlist_unhashed, INIT_HLIST_NODE, hm]
  · cases l with
    | nil =>
      have hnext : h.next n = none := hc
      simp [hlist_unhashed, hnext, setPprev, setLink, INIT_HLIST_NODE, hm]
    | cons f xs =>
      obtain ⟨hnext, hf, _⟩ := hc
      rw [hnext]
      by_cases hmf : m = f
      · subst hmf
        simp [hlist_unhashed, setPprev, setLink, INIT_HLIST_NODE, hm, hf]
      · simp [hlist_unhashed, setPprev, setLink, INIT_HLIST_NODE, hm, hmf]

/-! ## New nodes -/

/-- A node that is not on the list may be made anew. -/
theorem Holds.add_fake {h : Hlist} {l : List Nat} (hl : Holds h l) {n : Nat} (hn : n ∉ l) :
    Holds (hlist_add_fake (INIT_HLIST_NODE h n) n) l := by
  refine ⟨hl.1.congr ?_ ?_, hl.2⟩
  · intro x hx
    have hxn : x ≠ n := fun he => hn (he ▸ hx)
    simp [hlist_add_fake, INIT_HLIST_NODE, hxn]
  · intro x hx
    have hxn : x ≠ n := fun he => hn (he ▸ hx)
    simp [hlist_add_fake, INIT_HLIST_NODE, hxn]

theorem unhashed_add_fake (h : Hlist) (n m : Nat) :
    hlist_unhashed (hlist_add_fake (INIT_HLIST_NODE h n) n) m =
      (hlist_unhashed h m && decide (m ≠ n)) := by
  by_cases hm : m = n
  · simp [hlist_unhashed, hlist_add_fake, hm]
  · simp [hlist_unhashed, hlist_add_fake, INIT_HLIST_NODE, hm]

/-- A list whose first node points to itself does not end. -/
theorem not_holds_of_loop {h : Hlist} {n : Nat} (hfirst : h.first = some n)
    (hloop : h.next n = some n) : ¬∃ l, Holds h l := by
  rintro ⟨l, hc, hnodup⟩
  cases l with
  | nil => exact absurd (hfirst.symm.trans hc) nofun
  | cons x xs =>
    obtain ⟨hx, _, hxs⟩ := hc
    have hxn : x = n := Option.some.inj (hx.symm.trans hfirst)
    subst hxn
    cases xs with
    | nil => exact absurd (hloop.symm.trans hxs) nofun
    | cons y ys =>
      have hyx : y = x := Option.some.inj (hxs.1.symm.trans hloop)
      subst hyx
      exact (List.nodup_cons.mp hnodup).1 List.mem_cons_self

end hlist
