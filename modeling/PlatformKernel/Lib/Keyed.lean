-- Objects with an identity, kept in a list. A pointer to an object is its
-- key, and no two objects of the list have the same key. The weight of a list
-- is the sum of a number over its objects: it is how the laws count owners.
import Mathlib.Data.List.Nodup
import Mathlib.Data.List.Perm.Basic
import Mathlib.Algebra.BigOperators.Group.List.Basic
import Mathlib.Tactic.Common
import Mathlib.Algebra.GroupWithZero.Nat

namespace keyed

variable {α : Type} {key : α → Nat}

/-- The object with key `k`. -/
def lookup (key : α → Nat) (l : List α) (k : Nat) : Option α := l.find? (fun x => key x == k)

/-- The object with key `k` becomes `f` of it, or goes away. -/
def alter (key : α → Nat) (l : List α) (k : Nat) (f : α → Option α) : List α :=
  l.filterMap (fun x => if key x = k then f x else some x)

/-- The object with key `k` becomes `f` of it. -/
def update (key : α → Nat) (l : List α) (k : Nat) (f : α → α) : List α :=
  l.map (fun x => if key x = k then f x else x)

/-- The list without the object with key `k`. -/
def remove (key : α → Nat) (l : List α) (k : Nat) : List α := l.filter (fun x => key x != k)

/-- No two objects have one key. -/
def Unique (key : α → Nat) (l : List α) : Prop := (l.map key).Nodup

/-- The sum of a number over the objects. -/
def weight (g : α → Nat) (l : List α) : Nat := (l.map g).sum

/-! ## Lookup -/

theorem mem_of_lookup {l : List α} {k : Nat} {x : α} (h : lookup key l k = some x) : x ∈ l :=
  List.mem_of_find?_eq_some h

theorem key_of_lookup {l : List α} {k : Nat} {x : α} (h : lookup key l k = some x) : key x = k := by
  have := List.find?_some h
  simpa using this

theorem lookup_eq_none {l : List α} {k : Nat} : lookup key l k = none ↔ ∀ x ∈ l, key x ≠ k := by
  simp [lookup, List.find?_eq_none]

theorem Unique.tail {a : α} {l : List α} (h : Unique key (a :: l)) : Unique key l :=
  (List.nodup_cons.mp h).2

theorem Unique.head {a : α} {l : List α} (h : Unique key (a :: l)) : ∀ x ∈ l, key x ≠ key a := by
  intro x hx he
  exact (List.nodup_cons.mp h).1 (List.mem_map.mpr ⟨x, hx, he⟩)

theorem lookup_cons_ne {l : List α} {a : α} {k : Nat} (h : key a ≠ k) :
    lookup key (a :: l) k = lookup key l k := by
  unfold lookup
  rw [List.find?_cons, show (key a == k) = false by simpa using h]

theorem lookup_cons_self {l : List α} (a : α) : lookup key (a :: l) (key a) = some a := by
  simp [lookup]

theorem lookup_of_mem {l : List α} (hu : Unique key l) {x : α} (hx : x ∈ l) :
    lookup key l (key x) = some x := by
  induction l with
  | nil => simp at hx
  | cons a l ih =>
    rcases List.mem_cons.mp hx with rfl | hx
    · simp [lookup]
    · have hne : key a ≠ key x := fun he => hu.head x hx he.symm
      rw [lookup_cons_ne hne]
      exact ih hu.tail hx

theorem Unique.eq {l : List α} (hu : Unique key l) {x y : α} (hx : x ∈ l) (hy : y ∈ l)
    (h : key x = key y) : x = y := by
  have := lookup_of_mem hu hx
  rw [h, lookup_of_mem hu hy] at this
  exact (Option.some.inj this).symm

/-! ## Change of one object -/

theorem update_eq_self {l : List α} {k : Nat} {f : α → α} (h : ∀ x ∈ l, key x ≠ k) :
    update key l k f = l := by
  unfold update
  conv_rhs => rw [← List.map_id l]
  exact List.map_congr_left (fun x hx => by simp [h x hx])

theorem alter_eq_self {l : List α} {k : Nat} {f : α → Option α} (h : ∀ x ∈ l, key x ≠ k) :
    alter key l k f = l := by
  unfold alter
  conv_rhs => rw [← List.filterMap_some (l := l)]
  exact List.filterMap_congr (fun x hx => by simp [h x hx])

theorem update_eq_alter (l : List α) (k : Nat) (f : α → α) :
    update key l k f = alter key l k (fun x => some (f x)) := by
  unfold update alter
  rw [← List.filterMap_eq_map]
  exact List.filterMap_congr (fun x _ => by simp only [Function.comp_apply]; split <;> rfl)

theorem remove_eq_alter (l : List α) (k : Nat) :
    remove key l k = alter key l k (fun _ => none) := by
  unfold remove alter
  rw [← List.filterMap_eq_filter]
  refine List.filterMap_congr (fun x _ => ?_)
  by_cases h : key x = k <;> simp [Option.guard, h]

theorem mem_alter {l : List α} {k : Nat} {f : α → Option α} {y : α} :
    y ∈ alter key l k f ↔ (y ∈ l ∧ key y ≠ k) ∨ ∃ x ∈ l, key x = k ∧ f x = some y := by
  unfold alter
  rw [List.mem_filterMap]
  constructor
  · rintro ⟨x, hx, h⟩
    split at h
    · exact Or.inr ⟨x, hx, ‹_›, h⟩
    · cases h; exact Or.inl ⟨hx, ‹_›⟩
  · rintro (⟨hy, hk⟩ | ⟨x, hx, hk, h⟩)
    · exact ⟨y, hy, by simp [hk]⟩
    · exact ⟨x, hx, by simp [hk, h]⟩

theorem mem_update {l : List α} {k : Nat} {f : α → α} {y : α} :
    y ∈ update key l k f ↔ (y ∈ l ∧ key y ≠ k) ∨ ∃ x ∈ l, key x = k ∧ f x = y := by
  rw [update_eq_alter, mem_alter]
  simp

theorem mem_remove {l : List α} {k : Nat} {y : α} : y ∈ remove key l k ↔ y ∈ l ∧ key y ≠ k := by
  simp [remove]

/-- What a list keeps of its objects, each with its key. -/
theorem Unique.filterMap {l : List α} (hu : Unique key l) {f : α → Option α}
    (hf : ∀ x ∈ l, ∀ y, f x = some y → key y = key x) : Unique key (l.filterMap f) := by
  have hsub : ((l.filterMap f).map key).Sublist (l.map key) := by
    clear hu
    induction l with
    | nil => simp
    | cons a l ih =>
      have ih := ih (fun x hx => hf x (List.mem_cons_of_mem _ hx))
      rw [List.filterMap_cons]
      split
      · exact ih.trans (List.sublist_cons_self _ _)
      · rename_i b hb
        rw [List.map_cons, List.map_cons, hf a List.mem_cons_self b hb]
        exact ih.cons_cons (key a)
  exact hsub.nodup hu

theorem Unique.alter {l : List α} (hu : Unique key l) {k : Nat} {f : α → Option α}
    (hf : ∀ x y, f x = some y → key y = key x) : Unique key (alter key l k f) := by
  refine hu.filterMap (fun x _ y h => ?_)
  split at h
  · exact hf x y h
  · cases h
    rfl

theorem Unique.update {l : List α} (hu : Unique key l) {k : Nat} {f : α → α}
    (hf : ∀ x, key (f x) = key x) : Unique key (update key l k f) := by
  rw [update_eq_alter]
  refine hu.alter (fun x y h => ?_)
  cases h
  exact hf x

theorem Unique.remove {l : List α} (hu : Unique key l) {k : Nat} : Unique key (remove key l k) := by
  rw [remove_eq_alter]
  exact hu.alter (fun x y h => by cases h)

theorem Unique.cons {l : List α} (hu : Unique key l) {a : α} (h : ∀ x ∈ l, key x ≠ key a) :
    Unique key (a :: l) := by
  refine List.nodup_cons.mpr ⟨fun hm => ?_, hu⟩
  obtain ⟨x, hx, he⟩ := List.mem_map.mp hm
  exact h x hx he

theorem lookup_update {l : List α} {k j : Nat} {f : α → α} (hf : ∀ x, key (f x) = key x) :
    lookup key (update key l k f) j = (lookup key l j).map
      (fun x => if key x = k then f x else x) := by
  unfold lookup update
  rw [List.find?_map]
  congr 1
  refine congrArg (fun p => List.find? p l) (funext fun x => ?_)
  simp only [Function.comp_apply]
  split <;> simp [hf]

theorem lookup_update_ne {l : List α} {k j : Nat} {f : α → α} (hf : ∀ x, key (f x) = key x)
    (h : j ≠ k) : lookup key (update key l k f) j = lookup key l j := by
  rw [lookup_update hf]
  rcases hg : lookup key l j with _ | x
  · rfl
  · simp [key_of_lookup hg, h]

theorem lookup_update_self {l : List α} {k : Nat} {f : α → α} (hf : ∀ x, key (f x) = key x) :
    lookup key (update key l k f) k = (lookup key l k).map f := by
  rw [lookup_update hf]
  rcases hg : lookup key l k with _ | x
  · rfl
  · simp [key_of_lookup hg]

/-- Two changes of one object are one change. -/
theorem update_update {l : List α} {k : Nat} {f g : α → α} (hf : ∀ x, key (f x) = key x) :
    update key (update key l k f) k g = update key l k (fun x => g (f x)) := by
  unfold update
  rw [List.map_map]
  refine List.map_congr_left (fun x _ => ?_)
  by_cases hx : key x = k
  · simp [hx, hf]
  · simp [hx]

/-- The object with key `k` becomes `y`, which has that key. -/
theorem update_const (l : List α) {k : Nat} {y : α} :
    update key l k (fun _ => y) = update key l k (fun x => if key x = k then y else x) := by
  unfold update
  refine List.map_congr_left (fun x _ => ?_)
  by_cases hx : key x = k <;> simp [hx]

theorem Unique.update_const {l : List α} (hu : Unique key l) {k : Nat} {y : α} (hy : key y = k) :
    Unique key (keyed.update key l k (fun _ => y)) := by
  rw [keyed.update_const]
  refine hu.update (fun x => ?_)
  split
  · rename_i hx
    exact hy.trans hx.symm
  · rfl

theorem lookup_update_const_ne {l : List α} {k j : Nat} {y : α} (hy : key y = k) (h : j ≠ k) :
    lookup key (update key l k (fun _ => y)) j = lookup key l j := by
  rw [update_const]
  refine lookup_update_ne (fun x => ?_) h
  split
  · rename_i hx
    exact hy.trans hx.symm
  · rfl

theorem lookup_update_const_self {l : List α} {k : Nat} {x y : α} (hy : key y = k)
    (hx : lookup key l k = some x) : lookup key (update key l k (fun _ => y)) k = some y := by
  rw [update_const, lookup_update_self, hx]
  · simp [key_of_lookup hx]
  · intro z
    split
    · rename_i hz
      exact hy.trans hz.symm
    · rfl

/-- An object that is removed may have changed before. -/
theorem remove_update_const {l : List α} {k : Nat} {y : α} (hy : key y = k) :
    remove key (update key l k (fun _ => y)) k = remove key l k := by
  unfold remove update
  induction l with
  | nil => rfl
  | cons a l ih =>
    by_cases ha : key a = k
    · simp [ha, hy] at ih ⊢
      exact ih
    · simp [ha] at ih ⊢
      exact ih

theorem lookup_remove_ne {l : List α} {k j : Nat} (h : j ≠ k) :
    lookup key (remove key l k) j = lookup key l j := by
  unfold lookup remove
  rw [List.find?_filter]
  refine congrArg (fun p => List.find? p l) (funext fun x => ?_)
  by_cases hj : key x = j
  · simp [hj, h]
  · simp [hj]

/-- The object with a key comes to the front, and the others stay in order. -/
theorem perm_remove {l : List α} (hu : Unique key l) {k : Nat} {x : α}
    (hx : lookup key l k = some x) : l.Perm (x :: remove key l k) := by
  induction l with
  | nil => cases hx
  | cons a l ih =>
    by_cases ha : key a = k
    · subst ha
      rw [lookup_cons_self] at hx
      obtain rfl : a = x := Option.some.inj hx
      have hrest : remove key (a :: l) (key a) = l := by
        unfold remove
        rw [List.filter_cons_of_neg (by simp)]
        exact List.filter_eq_self.mpr (fun y hy => by simpa using hu.head y hy)
      rw [hrest]
    · rw [lookup_cons_ne ha] at hx
      have hrest : remove key (a :: l) k = a :: remove key l k :=
        List.filter_cons_of_pos (by simpa using ha)
      rw [hrest]
      exact ((ih hu.tail hx).cons a).trans (List.Perm.swap x a _)

/-- As `perm_remove`, when the object has changed. -/
theorem perm_update {l : List α} (hu : Unique key l) {k : Nat} {x : α} {f : α → α}
    (hx : lookup key l k = some x) : (update key l k f).Perm (f x :: remove key l k) := by
  refine ((perm_remove hu hx).map _).trans ?_
  rw [List.map_cons, if_pos (key_of_lookup hx)]
  have hsame : (remove key l k).map (fun y => if key y = k then f y else y) = remove key l k := by
    refine (List.map_congr_left fun y hy => ?_).trans (List.map_id _)
    rw [if_neg (mem_remove.mp hy).2, id]
  rw [hsame]

/-! ## Where the objects of a list come from -/

/-- Each object of `l'` is what is left of one of `l`, or it is new. -/
def Lineage (R : α → α → Prop) (New : α → Prop) (l l' : List α) : Prop :=
  ∀ y ∈ l', (∃ x ∈ l, R x y) ∨ New y

theorem Lineage.refl {R : α → α → Prop} {New : α → Prop} (hR : ∀ x, R x x) (l : List α) :
    Lineage R New l l := fun x hx => Or.inl ⟨x, hx, hR x⟩

theorem Lineage.trans {R : α → α → Prop} {New New' New'' : α → Prop} {l l' l'' : List α}
    (h : Lineage R New l l') (h' : Lineage R New' l' l'')
    (hR : ∀ x y z, R x y → R y z → R x z) (hnew : ∀ y z, New y → R y z → New'' z)
    (hnew' : ∀ z, New' z → New'' z) : Lineage R New'' l l'' := by
  intro z hz
  rcases h' z hz with ⟨y, hy, hyz⟩ | hz
  · rcases h y hy with ⟨x, hx, hxy⟩ | hy
    · exact Or.inl ⟨x, hx, hR x y z hxy hyz⟩
    · exact Or.inr (hnew y z hy hyz)
  · exact Or.inr (hnew' z hz)

theorem Lineage.filterMap {R : α → α → Prop} {New : α → Prop} {f : α → Option α} (l : List α)
    (hf : ∀ x y, f x = some y → R x y) : Lineage R New l (l.filterMap f) := by
  intro y hy
  obtain ⟨x, hx, he⟩ := List.mem_filterMap.mp hy
  exact Or.inl ⟨x, hx, hf x y he⟩

theorem Lineage.alter {R : α → α → Prop} {New : α → Prop} {f : α → Option α} (l : List α)
    (k : Nat) (hR : ∀ x, R x x) (hf : ∀ x y, f x = some y → R x y) :
    Lineage R New l (alter key l k f) := by
  refine .filterMap l (fun x y he => ?_)
  split at he
  · exact hf x y he
  · cases he
    exact hR x

theorem Lineage.update {R : α → α → Prop} {New : α → Prop} {f : α → α} (l : List α) (k : Nat)
    (hR : ∀ x, R x x) (hf : ∀ x, R x (f x)) : Lineage R New l (update key l k f) := by
  rw [update_eq_alter]
  refine .alter l k hR (fun x y he => ?_)
  cases he
  exact hf x

/-! ## The first object with a property -/

/-- The first object with a property stays the first when the changes leave the property alone. -/
theorem find?_filterMap_some {l : List α} {p : α → Bool} {g : α → Option α} {x y : α}
    (hp : ∀ a ∈ l, ∀ b, g a = some b → p b = p a) (hx : l.find? p = some x) (hg : g x = some y) :
    (l.filterMap g).find? p = some y := by
  induction l with
  | nil => cases hx
  | cons a l ih =>
    have ih := ih (fun b hb => hp b (List.mem_cons_of_mem _ hb))
    rw [List.find?_cons] at hx
    split at hx
    · rename_i hpa
      cases hx
      rw [List.filterMap_cons_some hg, List.find?_cons, hp _ List.mem_cons_self y hg, hpa]
    · rename_i hpa
      rcases hga : g a with _ | b
      · rw [List.filterMap_cons_none hga]
        exact ih hx
      · rw [List.filterMap_cons_some hga, List.find?_cons, hp a List.mem_cons_self b hga, hpa]
        exact ih hx

theorem find?_filterMap_none {l : List α} {p : α → Bool} {g : α → Option α}
    (hp : ∀ a ∈ l, ∀ b, g a = some b → p b = p a) (hx : l.find? p = none) :
    (l.filterMap g).find? p = none := by
  rw [List.find?_eq_none] at hx ⊢
  intro b hb
  obtain ⟨a, ha, he⟩ := List.mem_filterMap.mp hb
  rw [hp a ha b he]
  exact hx a ha

/-! ## Weights -/

@[simp] theorem weight_nil (g : α → Nat) : weight g [] = 0 := rfl

@[simp] theorem weight_cons (g : α → Nat) (a : α) (l : List α) :
    weight g (a :: l) = g a + weight g l := by simp [weight]

@[simp] theorem weight_append (g : α → Nat) (l m : List α) :
    weight g (l ++ m) = weight g l + weight g m := by simp [weight]

/-- The weight of what `f` leaves of one object. -/
def left (g : α → Nat) : Option α → Nat
  | none => 0
  | some y => g y

/-- A change of one object changes the weight by the weight of that object. -/
theorem weight_alter {l : List α} (hu : Unique key l) (g : α → Nat) {k : Nat}
    {f : α → Option α} {x : α} (hx : x ∈ l) (hk : key x = k) :
    weight g (alter key l k f) + g x = weight g l + left g (f x) := by
  induction l with
  | nil => simp at hx
  | cons a l ih =>
    by_cases ha : key a = k
    · have hax : a = x := by
        rcases List.mem_cons.mp hx with h | h
        · exact h.symm
        · exact absurd (hk.trans ha.symm) (hu.head x h)
      subst hax
      have hrest : alter key l k f = l :=
        alter_eq_self (fun y hy => by rw [← ha]; exact hu.head y hy)
      have hcons : alter key (a :: l) k f = (f a).toList ++ l := by
        conv_rhs => rw [← hrest]
        unfold alter
        rw [List.filterMap_cons]
        simp only [ha, if_true]
        rcases f a with _ | b <;> rfl
      rw [hcons, weight_append]
      rcases f a with _ | b <;> simp [left] <;> omega
    · have hxl : x ∈ l := by
        rcases List.mem_cons.mp hx with h | h
        · exact absurd (h ▸ hk) ha
        · exact h
      have hcons : alter key (a :: l) k f = a :: alter key l k f := by
        unfold alter
        rw [List.filterMap_cons]
        simp [ha]
      rw [hcons, weight_cons, weight_cons]
      have := ih hu.tail hxl
      omega

theorem weight_update {l : List α} (hu : Unique key l) (g : α → Nat) {k : Nat} {f : α → α}
    {x : α} (hx : x ∈ l) (hk : key x = k) :
    weight g (update key l k f) + g x = weight g l + g (f x) := by
  rw [update_eq_alter]
  exact weight_alter hu g hx hk

theorem weight_remove {l : List α} (hu : Unique key l) (g : α → Nat) {k : Nat} {x : α}
    (hx : x ∈ l) (hk : key x = k) : weight g (remove key l k) + g x = weight g l := by
  rw [remove_eq_alter]
  exact weight_alter hu g hx hk

theorem le_weight {g : α → Nat} {l : List α} {x : α} (hx : x ∈ l) : g x ≤ weight g l := by
  induction l with
  | nil => simp at hx
  | cons a l ih =>
    rw [weight_cons]
    rcases List.mem_cons.mp hx with rfl | hx
    · omega
    · have := ih hx
      omega

theorem weight_eq_zero {g : α → Nat} {l : List α} (h : ∀ x ∈ l, g x = 0) : weight g l = 0 := by
  induction l with
  | nil => rfl
  | cons a l ih =>
    rw [weight_cons, h a List.mem_cons_self, ih (fun x hx => h x (List.mem_cons_of_mem _ hx))]

end keyed
