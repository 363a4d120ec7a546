import Mathlib.Data.List.Perm.Basic

/-!
A gate that counts what is in flight. A holder reserves before it hands something on and releases
after it; the gate admits whatever fits, or a single thing of any size when nothing is in flight.
-/

namespace Ominull.Lib.Gate

variable {α : Type*} (cost : α → ℕ) (capacity : ℕ)

/-- The cost of all that is in a list. -/
def total : List α → ℕ
  | [] => 0
  | a :: l => cost a + total l

@[simp] theorem total_nil : total cost [] = 0 := rfl

@[simp] theorem total_cons (a : α) (l : List α) : total cost (a :: l) = cost a + total cost l := rfl

theorem total_perm {l l' : List α} (h : l.Perm l') : total cost l = total cost l' := by
  induction h with
  | nil => rfl
  | cons a _ ih => rw [total_cons, total_cons, ih]
  | swap a b l =>
    simp only [total_cons]
    omega
  | trans _ _ ih ih' => exact ih.trans ih'

/-- The gate counts exactly what is in flight, and this fits or is a single thing. -/
structure Accounted (used : ℕ) (l : List α) : Prop where
  used_eq : used = total cost l
  bound : used ≤ capacity ∨ l.length = 1

namespace Accounted

variable {cost capacity} {used : ℕ} {l l' : List α} {a : α}

theorem perm (h : Accounted cost capacity used l) (hl : l'.Perm l) : Accounted cost capacity used l' :=
  ⟨h.used_eq.trans (total_perm cost hl).symm, hl.length_eq ▸ h.bound⟩

theorem nil : Accounted cost capacity 0 ([] : List α) :=
  ⟨rfl, .inl (Nat.zero_le _)⟩

theorem reserve (h : Accounted cost capacity used l) (hpos : ∀ a, 0 < cost a)
    (hroom : used = 0 ∨ used + cost a ≤ capacity) (hl : l'.Perm (a :: l)) :
    Accounted cost capacity (used + cost a) l' := by
  refine perm ⟨?_, ?_⟩ hl
  · rw [total_cons, h.used_eq]
    omega
  · rcases hroom with hzero | hroom
    · -- nothing is in flight, since everything costs something
      right
      cases l with
      | nil => rfl
      | cons b l =>
        have := h.used_eq
        have := hpos b
        rw [total_cons] at *
        omega
    · exact .inl hroom

/-- What is given back was counted, so the gate never stops at zero. -/
theorem release (h : Accounted cost capacity used l) (hl : l.Perm (a :: l')) :
    Accounted cost capacity (used - cost a) l' := by
  have hcons : Accounted cost capacity used (a :: l') := h.perm hl.symm
  refine ⟨?_, ?_⟩
  · rw [hcons.used_eq, total_cons]
    omega
  · rcases hcons.bound with hfit | hone
    · left
      omega
    · left
      have hnil : l' = [] := List.length_eq_zero_iff.mp (by simpa using hone)
      rw [hcons.used_eq, hnil, total_cons, total_nil]
      omega

end Accounted

end Ominull.Lib.Gate
