import Ominull.Lib.Table

/-!
Requests served side by side: each is a thread with its request and how far it has come, and a step of
the system moves one of them.
-/

namespace Ominull.Lib

variable {ρ π : Type*}

structure Thread (ρ π : Type*) where
  id : ℕ
  req : ρ
  phase : π
  deriving DecidableEq

/-- The threads there have been. -/
abbrev Threads (ρ π : Type*) := Table (Thread.id : Thread ρ π → ℕ)

namespace Threads

variable {T T' : Threads ρ π} {i : ℕ} {t : Thread ρ π}

/-- A new thread; its number is not taken. -/
def start (T : Threads ρ π) (i : ℕ) (req : ρ) (p : π) : Option (Threads ρ π) := T.insert ⟨i, req, p⟩

def move (T : Threads ρ π) (i : ℕ) (p : π) : Threads ρ π :=
  T.update i (fun t => { t with phase := p }) (fun _ => rfl)

theorem forall_start {req : ρ} {p : π} {P : Thread ρ π → Prop} (h : T.start i req p = some T')
    (hold : ∀ t ∈ T.rows, P t) (hnew : P ⟨i, req, p⟩) : ∀ t ∈ T'.rows, P t := by
  rw [(Table.insert_rows h).1]
  exact List.forall_mem_append.mpr ⟨hold, List.forall_mem_singleton.mpr hnew⟩

/-- A thread is found under its own number. -/
theorem find_self {j : ℕ} {req : ρ} {p : π} (h : T.find i = some ⟨j, req, p⟩) : T.find i = some ⟨i, req, p⟩ := by
  obtain rfl : j = i := Table.key_of_find h
  exact h

theorem find_move_other {j : ℕ} {p : π} (h : j ≠ i) : (T.move j p).find i = T.find i :=
  Table.find_update_other _ _ _ h

theorem mem_move {p : π} {x : Thread ρ π} (hi : T.find i = some t) :
    x ∈ (T.move i p).rows ↔ (x ∈ T.rows ∧ x.id ≠ i) ∨ x = ⟨i, t.req, p⟩ := by
  obtain ⟨hmem, hid⟩ := Table.find_iff.mp hi
  unfold move
  rw [Table.mem_update]
  constructor
  · rintro (hx | ⟨y, hy, hyi, rfl⟩)
    · exact .inl hx
    · obtain rfl : y = t := Table.eq_of_key hy hmem (hyi.trans hid.symm)
      right
      rw [← hid]
  · rintro (hx | rfl)
    · exact .inl hx
    · right
      exact ⟨t, hmem, hid, by rw [← hid]⟩

theorem forall_move {p : π} {P : Thread ρ π → Prop} (hi : T.find i = some t)
    (hold : ∀ x ∈ T.rows, x.id ≠ i → P x) (hnew : P ⟨i, t.req, p⟩) : ∀ x ∈ (T.move i p).rows, P x := by
  intro x hx
  rcases (mem_move hi).mp hx with ⟨hx, hne⟩ | rfl
  · exact hold x hx hne
  · exact hnew

theorem forall₂_move {p : π} {R : Thread ρ π → Thread ρ π → Prop} (hsymm : ∀ x y, R x y → R y x)
    (hi : T.find i = some t) (hold : ∀ x ∈ T.rows, ∀ y ∈ T.rows, x.id ≠ y.id → R x y)
    (hnew : ∀ x ∈ T.rows, x.id ≠ i → R ⟨i, t.req, p⟩ x) :
    ∀ x ∈ (T.move i p).rows, ∀ y ∈ (T.move i p).rows, x.id ≠ y.id → R x y := by
  intro x hx y hy hne
  rcases (mem_move hi).mp hx with ⟨hx, hxi⟩ | rfl
  · rcases (mem_move hi).mp hy with ⟨hy, -⟩ | rfl
    · exact hold x hx y hy hne
    · exact hsymm _ _ (hnew x hx hxi)
  · rcases (mem_move hi).mp hy with ⟨hy, hyi⟩ | rfl
    · exact hnew y hy hyi
    · exact absurd rfl hne

theorem forall₂_start {req : ρ} {p : π} {R : Thread ρ π → Thread ρ π → Prop} (hsymm : ∀ x y, R x y → R y x)
    (h : T.start i req p = some T') (hold : ∀ x ∈ T.rows, ∀ y ∈ T.rows, x.id ≠ y.id → R x y)
    (hnew : ∀ x ∈ T.rows, R ⟨i, req, p⟩ x) : ∀ x ∈ T'.rows, ∀ y ∈ T'.rows, x.id ≠ y.id → R x y := by
  rw [(Table.insert_rows h).1]
  intro x hx y hy hne
  rcases List.mem_append.mp hx with hx | hx
  · rcases List.mem_append.mp hy with hy | hy
    · exact hold x hx y hy hne
    · rw [List.mem_singleton.mp hy]
      exact hsymm _ _ (hnew x hx)
  · rw [List.mem_singleton.mp hx] at hne ⊢
    rcases List.mem_append.mp hy with hy | hy
    · exact hnew y hy
    · rw [List.mem_singleton.mp hy] at hne
      exact absurd rfl hne

end Threads

end Ominull.Lib
