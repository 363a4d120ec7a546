import Mathlib.Data.List.Nodup
import Mathlib.Data.List.Perm.Subperm
import Mathlib.Data.List.Range

/-! Ranges of positions that are apart from each other: how much they cover, and when that is all. -/

namespace Ominull.Lib

open List

structure Span where
  start : ℕ
  length : ℕ
  deriving DecidableEq

namespace Span

def Apart (a b : Span) : Prop := a.start + a.length ≤ b.start ∨ b.start + b.length ≤ a.start

def Has (s : Span) (p : ℕ) : Prop := s.start ≤ p ∧ p < s.start + s.length

instance (a b : Span) : Decidable (a.Apart b) := inferInstanceAs (Decidable (_ ∨ _))

instance (s : Span) (p : ℕ) : Decidable (s.Has p) := inferInstanceAs (Decidable (_ ∧ _))

theorem Apart.symm {a b : Span} (h : a.Apart b) : b.Apart a := Or.symm h

def positions (l : List Span) : List ℕ := l.flatMap fun s => List.range' s.start s.length

def size : List Span → ℕ
  | [] => 0
  | s :: l => s.length + size l

variable {l : List Span} {n p : ℕ}

theorem mem_positions : p ∈ positions l ↔ ∃ s ∈ l, s.Has p := by
  simp [positions, Has, mem_range'_1]

theorem length_positions (l : List Span) : (positions l).length = size l := by
  induction l with
  | nil => rfl
  | cons s l ih =>
    rw [size, ← ih]
    simp [positions]

theorem nodup_positions (h : l.Pairwise Apart) : (positions l).Nodup := by
  refine nodup_flatMap.mpr ⟨fun s _ => nodup_range', ?_⟩
  refine h.imp fun {a b} hab => ?_
  intro p hp hp'
  rw [mem_range'_1] at hp hp'
  rcases hab with hab | hab <;> omega

theorem positions_subset (hwithin : ∀ s ∈ l, s.start + s.length ≤ n) : positions l ⊆ List.range n := by
  intro p hp
  obtain ⟨s, hs, hhas⟩ := mem_positions.mp hp
  have hle := hwithin s hs
  exact mem_range.mpr (lt_of_lt_of_le hhas.2 hle)

theorem size_le (h : l.Pairwise Apart) (hwithin : ∀ s ∈ l, s.start + s.length ≤ n) : size l ≤ n := by
  have hsub := subperm_of_subset (nodup_positions h) (positions_subset hwithin)
  rw [← length_positions, ← length_range (n := n)]
  exact hsub.length_le

theorem covers (h : l.Pairwise Apart) (hwithin : ∀ s ∈ l, s.start + s.length ≤ n)
    (hsize : size l = n) (hp : p < n) : ∃ s ∈ l, s.Has p := by
  have hsub := subperm_of_subset (nodup_positions h) (positions_subset hwithin)
  have hperm : (positions l).Perm (List.range n) := by
    refine hsub.perm_of_length_le ?_
    rw [length_range, length_positions, hsize]
  exact mem_positions.mp (hperm.mem_iff.mpr (mem_range.mpr hp))

/-- The part of a list that a range selects. -/
def of {α : Type*} (s : Span) (l : List α) : List α := (l.drop s.start).take s.length

end Span

end Ominull.Lib
