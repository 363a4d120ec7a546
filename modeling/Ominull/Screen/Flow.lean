import Mathlib.Order.Interval.Finset.Nat
import Ominull.Lib.Run
import Ominull.Screen.Wire

/-!
The helper's flow control. It counts the frames that are not acknowledged, one less with every acknowledgement, and
sends none while there are two.
-/

namespace Ominull.Screen

open Lib

/-- The part of the helper's session that decides whether a frame is sent, with the frame number at the last resume
and the highest frame that was acknowledged. -/
structure Session where
  paused : Bool := false
  frameNo : ℕ := 0
  unacked : ℕ := 0
  since : ℕ := 0
  highest : ℤ := -1
  deriving DecidableEq

inductive SessionEvent where
  | message (m : Wire.InMsg)
  /-- a frame is due, and the capture has tiles to send or none -/
  | tick (tiles : Bool)

namespace Session

def maxUnacked : ℕ := 2

/-- `none` ends the loop. -/
def onMessage (s : Session) : Wire.InMsg → Option Session
  | .close => none
  | .pause => some { s with paused := true }
  | .resume => some { s with paused := false, unacked := 0, since := s.frameNo }
  | .ack _ frame => some { s with
      unacked := if (s.frameNo - s.unacked : ℕ) ≤ frame then s.unacked - 1 else s.unacked
      highest := max s.highest frame }
  | .input _ | .setMonitor _ | .quality .. | .unknown => some s

def tick (s : Session) (tiles : Bool) : Session :=
  if s.paused then s
  else if maxUnacked ≤ s.unacked then s
  else if !tiles then s
  else { s with frameNo := s.frameNo + 1, unacked := s.unacked + 1 }

def step (s : Session) : SessionEvent → Option Session
  | .message m => s.onMessage m
  | .tick tiles => some (s.tick tiles)

/-- How many frames sent since the last resume are newer than the highest acknowledged one. -/
def outstanding (s : Session) : ℕ := ((Finset.Ico s.since s.frameNo).filter fun f : ℕ => s.highest < f).card

/-- An acknowledgement names a frame that was sent. -/
def Sent (s : Session) : SessionEvent → Prop
  | .message (.ack _ frame) => 0 ≤ frame ∧ frame < s.frameNo
  | _ => True

/-- An acknowledgement names no frame after the oldest that the helper counts. -/
def InOrder (s : Session) : SessionEvent → Prop
  | .message (.ack _ frame) => frame ≤ (s.frameNo - s.unacked : ℕ)
  | _ => True

structure Inv (s : Session) : Prop where
  since : s.since ≤ s.frameNo
  lowest : -1 ≤ s.highest
  highest : s.highest < s.frameNo
  few : s.unacked ≤ maxUnacked

variable {s t : Session} {e : SessionEvent}

theorem outstanding_eq (s : Session) : s.outstanding = s.frameNo - max s.since (s.highest + 1).toNat := by
  have hnewer : (Finset.Ico s.since s.frameNo).filter (fun f : ℕ => s.highest < f) =
      Finset.Ico (max s.since (s.highest + 1).toNat) s.frameNo := by
    ext f
    simp only [Finset.mem_filter, Finset.mem_Ico]
    omega
  rw [outstanding, hnewer, Nat.card_Ico]

theorem Inv.step (h : s.Inv) (hsent : s.Sent e) (hstep : s.step e = some t) : t.Inv := by
  obtain ⟨hsince, hlow, hhigh, hfew⟩ := h
  cases e with
  | message m =>
    cases m with
    | ack monitor frame =>
      cases hstep
      obtain ⟨hnonneg, hlt⟩ := hsent
      exact ⟨hsince, by dsimp only; omega, by dsimp only; omega, by dsimp only; split_ifs <;> omega⟩
    | close => cases hstep
    | resume =>
      cases hstep
      exact ⟨Nat.le_refl _, hlow, hhigh, Nat.zero_le _⟩
    | _ =>
      cases hstep
      exact ⟨hsince, hlow, hhigh, hfew⟩
  | tick tiles =>
    cases hstep
    rw [tick]
    split_ifs with hpaused hfull
    · exact ⟨hsince, hlow, hhigh, hfew⟩
    · exact ⟨hsince, hlow, hhigh, hfew⟩
    · exact ⟨hsince, hlow, hhigh, hfew⟩
    · exact ⟨by dsimp only; omega, hlow, by dsimp only; omega, by dsimp only; omega⟩

/-- One event: a right count stays right exactly when no frame is passed over. -/
theorem Inv.counted_iff (h : s.Inv) (hright : s.unacked = s.outstanding) (hsent : s.Sent e)
    (hstep : s.step e = some t) : t.unacked = t.outstanding ↔ s.InOrder e := by
  rw [outstanding_eq] at hright
  rw [outstanding_eq]
  obtain ⟨hsince, hlow, hhigh, -⟩ := h
  cases e with
  | message m =>
    cases m with
    | ack monitor frame =>
      cases hstep
      obtain ⟨hnonneg, hlt⟩ := hsent
      dsimp only [InOrder]
      split_ifs <;> omega
    | close => cases hstep
    | resume =>
      cases hstep
      refine iff_of_true ?_ trivial
      dsimp only
      omega
    | _ =>
      cases hstep
      exact iff_of_true hright trivial
  | tick tiles =>
    cases hstep
    refine iff_of_true ?_ trivial
    rw [tick]
    split_ifs
    · exact hright
    · exact hright
    · exact hright
    · dsimp only
      omega

/-- The count is right after the event. -/
def Counted (s : Session) (e : SessionEvent) : Prop := ∀ t ∈ s.step e, t.unacked = t.outstanding

theorem Inv.meets_counted_iff {events : List SessionEvent} (h : s.Inv) (hright : s.unacked = s.outstanding)
    (hsent : Meets Session.step Sent s events) :
    Meets Session.step Counted s events ↔ Meets Session.step InOrder s events := by
  induction events generalizing s with
  | nil => exact Iff.rfl
  | cons e events ih =>
    obtain ⟨he, hrest⟩ := hsent
    simp only [Meets, Counted]
    cases hstep : s.step e with
    | none =>
      -- only `close` ends the loop, and it acknowledges nothing
      have hclose : e = .message .close := by
        rcases e with (_ | _ | _ | _ | _ | _ | _ | _) | _ <;> first | rfl | cases hstep
      subst hclose
      simp [InOrder]
    | some t =>
      rw [hstep] at hrest
      simp only [Option.mem_some_iff, forall_eq', Option.elim_some, h.counted_iff hright he hstep]
      refine and_congr_right fun horder => ?_
      exact ih (h.step he hstep) ((h.counted_iff hright he hstep).mpr horder) hrest

/-- Over a whole run: the count is the number of outstanding frames after every event exactly when no
acknowledgement passes over a frame, and there are never more than two. -/
theorem unacked_eq_outstanding_iff (events : List SessionEvent) (hsent : Meets step Sent {} events) :
    (Meets step Counted {} events ↔ Meets step InOrder {} events) ∧
      ∀ t, runList step {} events = some t → t.unacked ≤ maxUnacked := by
  have hinit : Inv {} := ⟨Nat.le_refl _, Int.le_refl _, by decide, by decide⟩
  refine ⟨hinit.meets_counted_iff rfl hsent, fun t hrun => ?_⟩
  have ht : t.Inv := (run_of_runList hrun hsent).preserves (fun _ _ _ hs hstep => hs.step hstep.1 hstep.2) hinit
  exact ht.few

def skipping : List SessionEvent := [.tick true, .tick true, .message (.ack 0 1)]

theorem unacked_eq_outstanding_iff_skipping : Meets step Sent {} skipping ∧
    (Meets step Counted {} skipping ↔ Meets step InOrder {} skipping) :=
  have hsent : Meets step Sent {} skipping := by simp [skipping, Meets, Sent, step, onMessage, tick, maxUnacked]
  ⟨hsent, (unacked_eq_outstanding_iff skipping hsent).1⟩

/-- Both frames are acknowledged by the second one, and the helper still counts one. -/
theorem skipped_frame_counted : Meets step Sent {} skipping ∧
    ∃ t, runList step {} skipping = some t ∧ t.unacked = 1 ∧ t.outstanding = 0 :=
  ⟨by simp [skipping, Meets, Sent, step, onMessage, tick, maxUnacked], _, rfl, rfl, rfl⟩

end Session
end Ominull.Screen
