import Ominull.Lib.Run
import Ominull.Screen.Watch

/-!
Pausing and resuming the agent of a screen. Every attachment that comes asks for a resume and every one that leaves
for a pause. `pauseMu` lets one of them at a time decide, queue its message and set the flag; who is attached may
change in between.
-/

namespace Ominull.Screen

open Lib

inductive Control where
  | pause
  | resume
  deriving DecidableEq

/-- How far the call is that holds `pauseMu`. -/
inductive Holder where
  | sending (c : Control)
  /-- the message is queued, the flag not yet set -/
  | queued (c : Control)
  deriving DecidableEq

structure PauseRelay where
  opConn : Option ℕ := none
  watchers : List ℕ := []
  paused : Bool := false
  /-- the calls that wait for `pauseMu` -/
  waiting : List Control := []
  holder : Option Holder := none
  lastQueued : Option Control := none
  failed : Bool := false

inductive PauseEvent where
  | attachOperator (conn : ℕ)
  | attachWatcher (w : ℕ)
  | detachOperator
  | removeWatcher (w : ℕ)
  | attachAgent
  /-- also when the agent's connection breaks -/
  | close
  | lock (i : ℕ)
  | send (ok : Bool)
  | setFlag

namespace PauseRelay

/-- What `pauseIfUnwatched` and `resumeIfPaused` ask under the lock. -/
def sends (s : PauseRelay) : Control → Bool
  | .pause => s.opConn = none ∧ s.watchers = [] ∧ s.paused = false
  | .resume => s.paused

def step (s : PauseRelay) : PauseEvent → Option PauseRelay
  | .attachOperator conn => some { s with opConn := some conn, waiting := s.waiting ++ [.resume] }
  | .attachWatcher w =>
    if maxWatchers ≤ s.watchers.length then none
    else some { s with watchers := s.watchers ++ [w], waiting := s.waiting ++ [.resume] }
  | .detachOperator =>
    if s.opConn = none then none else some { s with opConn := none, waiting := s.waiting ++ [.pause] }
  | .removeWatcher w =>
    if w ∈ s.watchers then some { s with watchers := s.watchers.erase w, waiting := s.waiting ++ [.pause] } else none
  | .attachAgent => some s
  | .close => some { s with opConn := none, watchers := [] }
  | .lock i =>
    if s.holder = none then
      (s.waiting[i]?).map fun c => { s with
        waiting := s.waiting.eraseIdx i, holder := if s.sends c then some (.sending c) else none }
    else none
  | .send ok =>
    match s.holder with
    | some (.sending c) => some (if ok then { s with holder := some (.queued c), lastQueued := some c }
        else { s with holder := none, failed := true })
    | _ => none
  | .setFlag =>
    match s.holder with
    | some (.queued c) => some { s with holder := none, paused := c = .pause }
    | _ => none

def Viewed (s : PauseRelay) : Prop := s.opConn ≠ none ∨ s.watchers ≠ []

/-- What the flag will be when the call that holds `pauseMu` is through. -/
def target (s : PauseRelay) : Bool :=
  match s.holder with
  | some (.sending c) | some (.queued c) => c = .pause
  | none => s.paused

structure Inv (s : PauseRelay) : Prop where
  flag : (∀ c, s.holder ≠ some (.queued c)) → (s.paused = true ↔ s.lastQueued = some .pause)
  queued : ∀ c, s.holder = some (.queued c) → s.lastQueued = some c
  /-- whoever attaches to a paused agent has a resume waiting -/
  resumed : s.failed = false → s.Viewed → s.target = true → .resume ∈ s.waiting

variable {s t : PauseRelay} {e : PauseEvent}

/-- Attachments come and go without a word to the agent. -/
theorem Inv.attachments (h : s.Inv) {opConn : Option ℕ} {watchers : List ℕ} {waiting : List Control}
    (hnew : opConn ≠ none ∨ watchers ≠ [] → .resume ∈ waiting ∨ s.Viewed ∧ s.waiting ⊆ waiting) :
    Inv { s with opConn := opConn, watchers := watchers, waiting := waiting } where
  flag := h.flag
  queued := h.queued
  resumed hok hviewed htarget := by
    rcases hnew hviewed with hresume | ⟨hviewed, hsub⟩
    · exact hresume
    · exact hsub (h.resumed hok hviewed htarget)

theorem Inv.lock (h : s.Inv) (hfree : s.holder = none) {i : ℕ} {c : Control} (hc : s.waiting[i]? = some c) :
    Inv { s with
      waiting := s.waiting.eraseIdx i, holder := if s.sends c then some (.sending c) else none } := by
  have hflag := h.flag fun c hq => by rw [hfree] at hq; cases hq
  by_cases hsends : s.sends c = true
  · rw [if_pos hsends]
    refine ⟨fun _ => hflag, nofun, fun _ hviewed htarget => ?_⟩
    -- a pause is sent to nobody's view
    have hpause : c = .pause := of_decide_eq_true htarget
    subst hpause
    simp only [sends, decide_eq_true_eq] at hsends
    rcases hviewed with hviewed | hviewed
    · exact absurd hsends.1 hviewed
    · exact absurd hsends.2.1 hviewed
  · rw [if_neg hsends]
    refine ⟨fun _ => hflag, nofun, fun hok hviewed hpaused => ?_⟩
    have hresume := h.resumed hok hviewed (by rw [target, hfree]; exact hpaused)
    obtain ⟨j, hj⟩ := List.getElem?_of_mem hresume
    refine List.mem_eraseIdx_iff_getElem?.mpr ⟨j, ?_, hj⟩
    rintro rfl
    cases hc.symm.trans hj
    exact hsends hpaused

theorem Inv.step (h : s.Inv) (hstep : s.step e = some t) : t.Inv := by
  cases e with
  | attachOperator conn =>
    cases hstep
    exact h.attachments fun _ => .inl (by simp)
  | attachWatcher w =>
    simp only [PauseRelay.step] at hstep
    split_ifs at hstep
    cases hstep
    exact h.attachments fun _ => .inl (by simp)
  | detachOperator =>
    simp only [PauseRelay.step] at hstep
    split_ifs at hstep with hconn
    cases hstep
    exact h.attachments fun _ => .inr ⟨.inl hconn, by simp⟩
  | removeWatcher w =>
    simp only [PauseRelay.step] at hstep
    split_ifs at hstep with hw
    cases hstep
    exact h.attachments fun _ => .inr ⟨.inr (List.ne_nil_of_mem hw), by simp⟩
  | attachAgent =>
    cases hstep
    exact h
  | close =>
    cases hstep
    exact h.attachments fun hviewed => by simp at hviewed
  | lock i =>
    simp only [PauseRelay.step] at hstep
    split_ifs at hstep with hfree
    obtain ⟨c, hc, rfl⟩ := Option.map_eq_some_iff.mp hstep
    exact h.lock hfree hc
  | send ok =>
    simp only [PauseRelay.step] at hstep
    split at hstep
    case h_1 c hsending =>
      cases hstep
      split_ifs
      · refine ⟨fun hnone => absurd rfl (hnone c), fun _ hc' => by cases hc'; rfl, fun hok hviewed htarget => ?_⟩
        exact h.resumed hok hviewed (by rw [target, hsending]; exact htarget)
      · refine ⟨fun _ => h.flag fun c' hc' => ?_, nofun, nofun⟩
        rw [hsending] at hc'
        cases hc'
    case h_2 => cases hstep
  | setFlag =>
    simp only [PauseRelay.step] at hstep
    split at hstep
    case h_1 c hqueued =>
      cases hstep
      refine ⟨fun _ => ?_, nofun, fun hok hviewed htarget => ?_⟩
      · rw [h.queued c hqueued, decide_eq_true_eq, Option.some.injEq]
      · exact h.resumed hok hviewed (by rw [target, hqueued]; exact htarget)
    case h_2 => cases hstep

/-- Outside the moment between queueing a message and setting the flag, the flag says which message was queued last;
and once all calls are through, nobody watches a paused session unless a message could not be queued. -/
theorem paused_iff_lastQueued (s : PauseRelay) (hrun : Run (StepOf step) {} s) :
    ((∀ c, s.holder ≠ some (.queued c)) → (s.paused = true ↔ s.lastQueued = some .pause)) ∧
      (s.waiting = [] → s.holder = none → s.Viewed → s.failed = false → s.paused = false) := by
  have hinit : Inv {} := ⟨by simp, nofun, by simp [Viewed]⟩
  have hs : s.Inv := hrun.preserves (fun _ _ _ h hstep => h.step hstep) hinit
  refine ⟨hs.flag, fun hwaiting hholder hviewed hok => Bool.eq_false_iff.mpr fun hpaused => ?_⟩
  have hresume := hs.resumed hok hviewed (by rw [target, hholder]; exact hpaused)
  rw [hwaiting] at hresume
  cases hresume

/-- The operator comes and goes, and the pause is queued. -/
def leaving : List PauseEvent := [.attachOperator 1, .lock 0, .detachOperator, .lock 0, .send true]

theorem paused_iff_lastQueued_leaving : ∃ s, runList step {} (leaving ++ [.setFlag]) = some s ∧ s.paused = true ∧
    ((∀ c, s.holder ≠ some (.queued c)) → (s.paused = true ↔ s.lastQueued = some .pause)) :=
  have hrun : runList step {} (leaving ++ [.setFlag]) = some { paused := true, lastQueued := some .pause } := rfl
  ⟨_, hrun, rfl, (paused_iff_lastQueued _ (runList_run hrun)).1⟩

/-- The last message queued was a pause, and the flag is not set. -/
theorem queued_before_flag : ∃ s, runList step {} leaving = some s ∧ s.lastQueued = some .pause ∧ s.paused = false :=
  ⟨_, rfl, rfl, rfl⟩

end PauseRelay
end Ominull.Screen
