import Ominull.Lib.Run
import Ominull.Response.Types

/-!
The idle deadline of a terminal session. What the operator does moves it in memory. It reaches the row by a write
of the attach or by the flush in front of the next sweep, and the sweep goes by the row.
-/

namespace Ominull.Terminal

open Lib Response

inductive FrameType where
  | stdin
  | stdout
  | resize
  | close

def FrameType.isActivity : FrameType → Bool
  | .stdin | .resize => true
  | .stdout | .close => false

structure IdleSession where
  idleExpiresAt : Time
  recordingBytes : Int := 0
  bounded : Bool := false
  dirty : Bool := false
  /-- `idle_expires_at` of the row -/
  row : Time
  /-- the deadlines that an attach or a flush is about to write -/
  pending : List Time := []
  /-- when an operator attached, typed or resized -/
  activity : List Time := []

inductive IdleEvent where
  | attachOperator (now : Time)
  /-- `AttachWatcher` and `touchActivity` -/
  | touch (now : Time)
  | recordFrame (type : FrameType) (size : ℕ) (now : Time)
  /-- the first half of `flushDirty` -/
  | collect
  | write (i : ℕ) (ok : Bool)
  /-- the query of a sweep, while the row is active or detached -/
  | sweep (now : Time)

namespace IdleSession

variable (idle : Time) (maxRecordingBytes : Int)

def overflows (s : IdleSession) (size : ℕ) : Bool :=
  0 < maxRecordingBytes ∧ maxRecordingBytes < s.recordingBytes + (size + 64)

def recordFrame (s : IdleSession) (type : FrameType) (size : ℕ) (now : Time) : IdleSession :=
  if s.bounded then s
  else if s.overflows maxRecordingBytes size then { s with bounded := true }
  else { s with
    recordingBytes := s.recordingBytes + (size + 64)
    idleExpiresAt := if type.isActivity then now + idle else s.idleExpiresAt
    dirty := true }

def step (s : IdleSession) : IdleEvent → Option IdleSession
  | .attachOperator now => some { s with
      idleExpiresAt := now + idle, pending := s.pending ++ [now + idle], activity := now :: s.activity }
  | .touch now => some { s with idleExpiresAt := now + idle, dirty := true, activity := now :: s.activity }
  | .recordFrame type size now => some { s.recordFrame idle maxRecordingBytes type size now with
      activity := if type.isActivity then now :: s.activity else s.activity }
  | .collect =>
    some (if s.dirty then { s with dirty := false, pending := s.pending ++ [s.idleExpiresAt] } else s)
  | .write i ok => (s.pending[i]?).map fun v =>
      { s with row := if ok then v else s.row, pending := s.pending.eraseIdx i }
  | .sweep _ => some s

/-- A sweep that finds the row finds no activity within the timeout. -/
def Spared (s : IdleSession) : IdleEvent → Prop
  | .sweep now => s.row < now → ∀ a ∈ s.activity, a + idle < now
  | _ => True

/-- The clock does not go back, what the operator does is recorded, writes succeed and none is overtaken by a
later one, and at a sweep no deadline waits to be written. -/
def Flushed (s : IdleSession) : IdleEvent → Prop
  | .attachOperator now | .touch now => s.idleExpiresAt ≤ now + idle
  | .recordFrame type size now => type.isActivity = true →
      s.idleExpiresAt ≤ now + idle ∧ s.bounded = false ∧ s.overflows maxRecordingBytes size = false
  | .collect => True
  | .write i ok => ok = true ∧ ∀ v ∈ s.pending[i]?, s.row ≤ v
  | .sweep _ => s.dirty = false ∧ s.pending = []

instance (s : IdleSession) (e : IdleEvent) : Decidable (s.Spared idle e) := by
  cases e <;> dsimp only [Spared] <;> infer_instance

/-- The deadline in memory counts from the last activity, and the row has it or is going to. -/
structure Inv (s : IdleSession) : Prop where
  latest : ∀ a ∈ s.activity, a + idle ≤ s.idleExpiresAt
  pending : ∀ v ∈ s.pending, v ≤ s.idleExpiresAt
  row : s.row ≤ s.idleExpiresAt
  kept : s.dirty = false → s.idleExpiresAt ∈ s.pending ∨ s.row = s.idleExpiresAt

variable {idle maxRecordingBytes} {s t : IdleSession} {e : IdleEvent}

theorem Inv.spared (h : s.Inv idle) (hflushed : s.Flushed idle maxRecordingBytes e) : s.Spared idle e := by
  cases e with
  | sweep now =>
    intro hrow a ha
    have hkept : s.row = s.idleExpiresAt := by
      rcases h.kept hflushed.1 with hmem | hrow
      · rw [hflushed.2] at hmem
        cases hmem
      · exact hrow
    exact Int.lt_of_le_of_lt (h.latest a ha) (hkept ▸ hrow)
  | _ => trivial

/-- An activity moves the deadline. -/
theorem Inv.move (h : s.Inv idle) {now : Time} (hnow : s.idleExpiresAt ≤ now + idle) {bytes : Int}
    {bounded dirty : Bool} {pending : List Time} (hpending : ∀ v ∈ pending, v ∈ s.pending ∨ v = now + idle)
    (hkept : dirty = false → now + idle ∈ pending) :
    Inv idle { s with
      idleExpiresAt := now + idle, recordingBytes := bytes, bounded := bounded, dirty := dirty
      pending := pending, activity := now :: s.activity } where
  latest a ha := by
    rcases List.mem_cons.mp ha with rfl | ha
    · exact Int.le_refl _
    · exact Int.le_trans (h.latest a ha) hnow
  pending v hv := by
    rcases hpending v hv with hv | rfl
    · exact Int.le_trans (h.pending v hv) hnow
    · exact Int.le_refl _
  row := Int.le_trans h.row hnow
  kept hdirty := .inl (hkept hdirty)

theorem Inv.step (h : s.Inv idle) (hflushed : s.Flushed idle maxRecordingBytes e)
    (hstep : s.step idle maxRecordingBytes e = some t) : t.Inv idle := by
  cases e with
  | attachOperator now =>
    cases hstep
    exact h.move hflushed (by simp) (by simp)
  | touch now =>
    cases hstep
    exact h.move hflushed (fun v hv => .inl hv) nofun
  | recordFrame type size now =>
    cases hstep
    by_cases hact : type.isActivity = true
    · obtain ⟨hnow, hbounded, hroom⟩ := hflushed hact
      simp only [recordFrame, hact, hbounded, hroom, if_true, Bool.false_eq_true, if_false]
      exact h.move hnow (fun v hv => .inl hv) nofun
    · simp only [recordFrame, if_neg hact]
      split_ifs
      · exact h
      · exact { h with }
      · exact { h with kept := nofun }
  | collect =>
    cases hstep
    split_ifs
    · refine ⟨h.latest, fun v hv => ?_, h.row, fun _ => .inl (by simp)⟩
      rcases List.mem_append.mp hv with hv | hv
      · exact h.pending v hv
      · exact Int.le_of_eq (List.mem_singleton.mp hv)
    · exact h
  | write i ok =>
    obtain ⟨v, hv, rfl⟩ := Option.map_eq_some_iff.mp hstep
    obtain ⟨rfl, hle⟩ := hflushed
    have hlate := h.pending v (List.mem_of_getElem? hv)
    refine ⟨h.latest, fun w hw => h.pending w (List.mem_of_mem_eraseIdx hw), hlate, fun hdirty => ?_⟩
    by_cases heq : v = s.idleExpiresAt
    · exact .inr heq
    rcases h.kept hdirty with hmem | hrow
    · obtain ⟨j, hj⟩ := List.getElem?_of_mem hmem
      refine .inl (List.mem_eraseIdx_iff_getElem?.mpr ⟨j, ?_, hj⟩)
      rintro rfl
      exact heq (Option.some.inj (hv.symm.trans hj))
    · exact absurd (Int.le_antisymm hlate (hrow ▸ hle v hv)) heq
  | sweep now =>
    cases hstep
    exact h

variable (idle maxRecordingBytes)

/-- A new session, whose row has the deadline of its creation. -/
def created (now : Time) : IdleSession := { idleExpiresAt := now + idle, row := now + idle }

/-- In a history whose steps are all flushed, no sweep comes within the timeout of an activity. -/
theorem swept_only_idle (now : Time) (events : List IdleEvent)
    (h : Meets (step idle maxRecordingBytes) (Flushed idle maxRecordingBytes) (created idle now) events) :
    Meets (step idle maxRecordingBytes) (Spared idle) (created idle now) events := by
  have hinv : Inv idle (created idle now) :=
    ⟨nofun, nofun, Int.le_refl _, fun _ => .inr rfl⟩
  generalize created idle now = s at h hinv
  induction events generalizing s with
  | nil => trivial
  | cons e events ih =>
    obtain ⟨he, hrest⟩ := h
    refine ⟨hinv.spared he, ?_⟩
    cases hstep : s.step idle maxRecordingBytes e with
    | none => trivial
    | some t =>
      rw [hstep] at hrest
      exact ih t hrest (hinv.step he hstep)

def typed : List IdleEvent :=
  [.recordFrame .stdin 1 800, .collect, .write 0 true, .sweep 1000]

theorem swept_only_idle_typed : Meets (step 900 1000) (Spared 900) (created 900 0) typed :=
  swept_only_idle 900 1000 0 typed
    (by simp [typed, Meets, Flushed, step, recordFrame, overflows, created, FrameType.isActivity])

/-- The operator types at 800 and is swept at 1000: the recording is full, or the frame comes behind the flush, or
the write fails. -/
theorem swept_while_typing :
    ¬Meets (step 900 64) (Spared 900) (created 900 0) [.recordFrame .stdin 1 800, .collect, .sweep 1000] ∧
    ¬Meets (step 900 1000) (Spared 900) (created 900 0) [.collect, .recordFrame .stdin 1 800, .sweep 1000] ∧
    ¬Meets (step 900 1000) (Spared 900) (created 900 0)
      [.recordFrame .stdin 1 800, .collect, .write 0 false, .sweep 1000] := by
  decide +kernel

end IdleSession
end Ominull.Terminal
