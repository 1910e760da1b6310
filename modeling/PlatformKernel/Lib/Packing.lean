-- Pieces of one address space that are packed into another, in the order of
-- their starts. Pieces that overlap keep their distance, and pieces that do not
-- stay apart: a piece that starts before the end of those already packed goes
-- to the same group, and any other one opens a new group behind them.
import Mathlib.Data.List.Basic
import Mathlib.Tactic.Common

namespace packing

/-- The addresses from `start` on and before `stop`, and the place of the first of them. -/
structure Piece where
  start : Nat
  stop : Nat
  place : Nat
  deriving DecidableEq, Repr

/-- The address behind the place of the piece. -/
def Piece.placeEnd (p : Piece) : Nat := p.place + (p.stop - p.start)

/-- The two pieces have kept their distance. -/
def Agree (p q : Piece) : Prop := p.place + q.start = q.place + p.start

/-- The first piece is before the second one, and so is its place. -/
def Before (p q : Piece) : Prop := p.stop ≤ q.start ∧ p.placeEnd ≤ q.place

/-- What packing promises of two pieces. -/
def Tidy (p q : Piece) : Prop := Agree p q ∨ Before p q ∨ Before q p

theorem Tidy.symm {p q : Piece} (h : Tidy p q) : Tidy q p := by
  rcases h with h | h | h
  · exact Or.inl h.symm
  · exact Or.inr (Or.inr h)
  · exact Or.inr (Or.inl h)

/-- Pieces that share an address have kept their distance. -/
theorem Tidy.agree {p q : Piece} (h : Tidy p q) (hpq : q.start < p.stop) (hqp : p.start < q.stop) :
    Agree p q := by
  rcases h with h | h | h
  · exact h
  · exact absurd h.1 (by omega)
  · exact absurd h.1 (by omega)

/-- The places of pieces that share no address share none either. -/
theorem Tidy.apart {p q : Piece} (h : Tidy p q) (hp : p.start ≤ p.stop) (hq : q.start ≤ q.stop)
    (hpq : p.stop ≤ q.start ∨ q.stop ≤ p.start) : p.placeEnd ≤ q.place ∨ q.placeEnd ≤ p.place := by
  rcases h with h | h | h
  · unfold Agree at h
    unfold Piece.placeEnd
    omega
  · exact Or.inl h.2
  · exact Or.inr h.2

/-- The state of the packing: the group that is open began at `group`, whose place is `base`;
the pieces of the group reach up to `reach`, and `cursor` is the place for it. Each piece is in
the open group or was packed before it. -/
structure Packed (lo group base reach cursor : Nat) (ps : List Piece) : Prop where
  group_le : group ≤ reach
  lo_le : lo ≤ base
  shift : base + reach = cursor + group
  ordered : ∀ p ∈ ps, p.start ≤ p.stop
  above : ∀ p ∈ ps, lo ≤ p.place
  packed : ∀ p ∈ ps,
    (group ≤ p.start ∧ p.stop ≤ reach ∧ p.place + group = p.start + base) ∨
      (p.stop ≤ group ∧ p.placeEnd ≤ base)
  tidy : ∀ p ∈ ps, ∀ q ∈ ps, Tidy p q

variable {lo group base reach cursor : Nat} {ps : List Piece}

theorem packed_nil (lo : Nat) : Packed lo 0 lo 0 lo [] := by
  constructor <;> simp

/-- All pieces end before the reach, and their places before the cursor. -/
theorem Packed.le (h : Packed lo group base reach cursor ps) {p : Piece} (hp : p ∈ ps) :
    p.stop ≤ reach ∧ p.placeEnd ≤ cursor := by
  have hg := h.group_le
  have hs := h.shift
  have ho := h.ordered p hp
  rcases h.packed p hp with ⟨h1, h2, h3⟩ | ⟨h1, h2⟩
  · unfold Piece.placeEnd
    omega
  · omega

/-- A new group, at or behind the reach and at or behind the cursor. -/
theorem Packed.open (h : Packed lo group base reach cursor ps) {start base' : Nat}
    (hstart : reach ≤ start) (hbase : cursor ≤ base') :
    Packed lo start base' start base' ps := by
  have hg := h.group_le
  have hs := h.shift
  have hlo := h.lo_le
  refine ⟨Nat.le_refl _, by omega, rfl, h.ordered, h.above, ?_, h.tidy⟩
  intro p hp
  have hle := h.le hp
  exact Or.inr ⟨by omega, by omega⟩

/-- The next piece of the open group. -/
theorem Packed.place (h : Packed lo group base reach cursor ps) {start stop : Nat}
    (hgroup : group ≤ start) (hreach : start ≤ reach) (hle : start ≤ stop) :
    Packed lo group base (max reach stop) (cursor + (stop - reach))
      (ps ++ [⟨start, stop, cursor - (reach - start)⟩]) := by
  have hg := h.group_le
  have hs := h.shift
  have hlo := h.lo_le
  have hplace : cursor - (reach - start) + group = start + base := by omega
  have hnew : ∀ p ∈ ps, Tidy p ⟨start, stop, cursor - (reach - start)⟩ := by
    intro p hp
    rcases h.packed p hp with ⟨_, _, h3⟩ | ⟨h1, h2⟩
    · exact Or.inl (by unfold Agree; dsimp only; omega)
    · exact Or.inr (Or.inl ⟨by dsimp only; omega, by dsimp only; omega⟩)
  refine ⟨by omega, hlo, by omega, ?_, ?_, ?_, ?_⟩
  · intro p hp
    rcases List.mem_append.mp hp with hp | hp
    · exact h.ordered p hp
    · cases List.mem_singleton.mp hp
      exact hle
  · intro p hp
    rcases List.mem_append.mp hp with hp | hp
    · exact h.above p hp
    · cases List.mem_singleton.mp hp
      dsimp only
      omega
  · intro p hp
    rcases List.mem_append.mp hp with hp | hp
    · rcases h.packed p hp with ⟨h1, h2, h3⟩ | hold
      · exact Or.inl ⟨h1, by omega, h3⟩
      · exact Or.inr hold
    · cases List.mem_singleton.mp hp
      exact Or.inl ⟨hgroup, by dsimp only; omega, hplace⟩
  · intro p hp q hq
    rcases List.mem_append.mp hp with hp | hp <;> rcases List.mem_append.mp hq with hq | hq
    · exact h.tidy p hp q hq
    · cases List.mem_singleton.mp hq
      exact hnew p hp
    · cases List.mem_singleton.mp hp
      exact (hnew q hq).symm
    · cases List.mem_singleton.mp hp
      cases List.mem_singleton.mp hq
      exact Or.inl rfl

end packing
