import Mathlib.Data.List.Basic
import Mathlib.Data.List.Induction
import Mathlib.Order.Basic

/-! Rationing over a sliding window: each thing is handed out only while fewer than so many were handed out
within the window before it. -/

namespace Ominull.Lib

open List

variable {n : ℕ} {w t : Int} {l : List Int}

/-- The times that are less than a window before `t`. -/
def recent (w t : Int) (l : List Int) : List Int := l.filter fun s => t - s < w

theorem recent_append (w t : Int) (l l' : List Int) : recent w t (l ++ l') = recent w t l ++ recent w t l' :=
  filter_append ..

theorem recent_recent {t' : Int} (h : t ≤ t') (l : List Int) : recent w t' (recent w t l) = recent w t' l := by
  rw [recent, recent, filter_filter]
  apply filter_congr
  intro s _
  by_cases hs : t' - s < w
  · have : t - s < w := by omega
    simp [hs, this]
  · simp [hs]

/-- The times of what was handed out, in order: each had fewer than `n` of those before it in its window. -/
def Rationed (n : ℕ) (w : Int) (l : List Int) : Prop :=
  ∀ earlier t later, l = earlier ++ t :: later → (recent w t earlier).length < n

theorem Rationed.nil : Rationed n w [] := by
  intro earlier t later h
  exact absurd h.symm (by simp)

theorem Rationed.initial {l' : List Int} (h : Rationed n w (l ++ l')) : Rationed n w l := by
  rintro earlier t later rfl
  exact h earlier t (later ++ l') (by simp)

theorem Rationed.concat (h : Rationed n w l) (ht : (recent w t l).length < n) : Rationed n w (l ++ [t]) := by
  intro earlier s later hsplit
  rcases eq_nil_or_concat' later with rfl | ⟨later, u, rfl⟩
  · obtain ⟨rfl, hs⟩ := append_inj' hsplit rfl
    obtain rfl : t = s := singleton_inj.mp hs
    exact ht
  · rw [← cons_append, ← append_assoc] at hsplit
    exact h earlier s later (append_inj' hsplit rfl).1

/-- No window holds more than `n`. -/
theorem Rationed.count_le (h : Rationed n w l) (start : Int) :
    (l.filter fun s => start ≤ s ∧ s < start + w).length ≤ n := by
  induction l using List.reverseRecOn with
  | nil => exact Nat.zero_le n
  | append_singleton l t ih =>
    rw [filter_append, length_append]
    by_cases ht : start ≤ t ∧ t < start + w
    · -- the others in this window are recent at the last one's time
      have hbefore := h l t [] rfl
      have hsub : (l.filter fun s => start ≤ s ∧ s < start + w).length ≤ (recent w t l).length := by
        apply List.Sublist.length_le
        apply monotone_filter_right
        intro s hs
        rw [decide_eq_true_eq] at hs ⊢
        omega
      rw [filter_cons_of_pos (by simpa using ht), filter_nil, length_singleton]
      omega
    · rw [filter_cons_of_neg (by simpa using ht), filter_nil, length_nil]
      exact ih h.initial

end Ominull.Lib
