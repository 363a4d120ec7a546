import Ominull.Response.Faults
import Ominull.Response.Terminal

/-! Whether the jobs that have ended are those with a completion time. -/

namespace Ominull.Response

open Go Store

def JobRecord.Timed (j : JobRecord) : Prop := j.state.terminal ↔ j.completedAt.isSome

def Store.Timed (s : Store) : Prop := ∀ id j, s.jobs.find id = some j → j.Timed

/-- A cancellation, for the job's tenant, of a job that no agent has taken. -/
def WithdrawsUntaken (s : Store) (e : Event) : Prop :=
  ∃ now tenantID jobID actor j, e = .call now (.cancel tenantID jobID actor) ∧
    s.jobs.find jobID = some j ∧ (tenantID = [] ∨ j.tenantID = tenantID) ∧
    (j.state = .queued ∨ j.state = .offered)

variable {s : Store} {now : Time} {op : Op} {id : Str} {j j' : JobRecord}

theorem JobRecord.Timed.ended (hstate : j.state.terminal) (htime : j.completedAt.isSome) : j.Timed :=
  ⟨fun _ => htime, fun _ => hstate⟩

theorem JobRecord.Timed.under_way (hstate : ¬j.state.terminal) (htime : j.completedAt = none) : j.Timed := by
  constructor
  · intro h
    exact absurd h hstate
  · intro h
    rw [htime] at h
    cases h

theorem JobRecord.Timed.completedAt_none (h : j.Timed) (hstate : ¬j.state.terminal) : j.completedAt = none := by
  have hnot : ¬j.completedAt.isSome := fun htime => hstate (h.mpr htime)
  simpa using hnot

theorem target_terminal (r : JobResult) : r.target.terminal := by
  unfold JobResult.target
  split_ifs <;> rfl

theorem sessionTarget_terminal (j : JobRecord) (errorCode : Str) : (j.sessionTarget errorCode).terminal := by
  unfold JobRecord.sessionTarget
  split_ifs <;> rfl

theorem not_terminal_of_valid {source target : JobState} (hvalid : isValidTransition source target)
    (htarget : ¬target.terminal) : ¬source.terminal := by
  intro hsource
  rw [isValidTransition_of_terminal hsource hvalid] at hsource
  exact htarget hsource

/-- The row steps that end a job set its completion time; only the withdrawal of an untaken job ends
it without. -/
theorem RowStep.timed (h : RowStep now op j j') (hj : s.jobs.find id = some j) (htimed : j.Timed)
    (hok : ¬WithdrawsUntaken s (.call now op)) : j'.Timed := by
  cases h with
  | keep => exact htimed
  | neverTaken | reject => exact .ended rfl rfl
  | lease _ _ hstate =>
    have hopen : ¬j.state.terminal := by
      rcases hstate with hstate | ⟨hstate, -⟩
      · rw [hstate]
        decide
      · rw [hstate]
        decide
    exact .under_way Bool.false_ne_true (htimed.completedAt_none hopen)
  | accept _ hrefuse =>
    have hvalid := (refuseAcknowledge_eq_none.mp hrefuse).2.2.2.2
    have hopen : ¬j.state.terminal := not_terminal_of_valid hvalid (by decide)
    exact .under_way Bool.false_ne_true (htimed.completedAt_none hopen)
  | advance =>
    by_cases hstate : j.state = .acknowledged
    · have hopen : ¬j.state.terminal := by
        rw [hstate]
        decide
      refine .under_way ?_ (htimed.completedAt_none hopen)
      rw [show (j.advance now).state = .running from if_pos hstate]
      decide
    · show (j.advance now).state.terminal ↔ j.completedAt.isSome
      rw [show (j.advance now).state = j.state from if_neg hstate]
      exact htimed
  | complete r => exact .ended (target_terminal r) rfl
  | @cancel tenantID actor hop htenant hopen =>
    have htaken : ¬(j.state = .queued ∨ j.state = .offered) := by
      intro huntaken
      have hid := Lib.Table.key_of_find hj
      exact hok ⟨now, tenantID, j.id, actor, j, by rw [hop], hid.symm ▸ hj, htenant, huntaken⟩
    refine .under_way ?_ (htimed.completedAt_none hopen)
    rw [show (j.cancel now).state = .cancelRequested from if_neg htaken]
    decide
  | endSession errorCode => exact .ended (sessionTarget_terminal j errorCode) rfl

namespace Store

theorem Timed.rowsStep {s s' : Store} (h : s.Timed) (hstep : RowsStep now op s s')
    (hok : ¬WithdrawsUntaken s (.call now op)) : s'.Timed := by
  intro id j' hj'
  cases hj : s.jobs.find id with
  | none =>
    obtain ⟨hstate, htime⟩ := hstep.fresh id j' hj hj'
    refine .under_way ?_ htime
    rw [hstate]
    decide
  | some j =>
    obtain ⟨j₁, hj₁, hrow⟩ := hstep.kept id j hj
    obtain rfl : j₁ = j' := Option.some.inj (hj₁.symm.trans hj')
    exact hrow.timed hj (h id j hj) hok

theorem Timed.next (h : s.Timed) {e : Event} (hok : ¬WithdrawsUntaken s e) : (s.next e).Timed := by
  have hoffer : ∀ now leases t e n d, ¬WithdrawsUntaken s (.call now (.offer leases t e n d)) := by
    rintro _ _ _ _ _ _ ⟨_, _, _, _, _, heq, -⟩
    cases heq
  have hcreate : ∀ now freshID a, ¬WithdrawsUntaken s (.call now (.create freshID a)) := by
    rintro _ _ _ ⟨_, _, _, _, _, heq, -⟩
    cases heq
  cases e with
  | call now op => exact h.rowsStep (exec_rowsStep op) hok
  | fault | heartbeatOnly => exact h
  | createUnread now freshID a =>
    obtain hsame | ⟨job, jobs, _, hins, hstate, htime, -, -, -, heq⟩ := createUnread_cases s now freshID a
    · show (s.createUnread now freshID a).Timed
      rw [hsame]
      exact h
    · show (s.createUnread now freshID a).Timed
      rw [heq]
      exact h.rowsStep (.inserted hins hstate htime) (hcreate now freshID a)
  | offerFaulty fails now leases t e n d =>
    apply h.rowsStep _ (hoffer now leases t e n d)
    exact (offerItemsFaulty_loop ..).rowsStep (selected_pendingJobs ..)

/-- Withdrawing a job that no agent has taken leaves it cancelled with no completion time. -/
theorem not_timed_of_withdraws {e : Event} (h : s.Timed) (hwithdraw : WithdrawsUntaken s e) : ¬(s.next e).Timed := by
  obtain ⟨now, tenantID, jobID, actor, j, rfl, hj, htenant, huntaken⟩ := hwithdraw
  have hopen : ¬j.state.terminal := by
    rcases huntaken with hstate | hstate
    · rw [hstate]
      decide
    · rw [hstate]
      decide
  have htarget : j.cancelTarget = .cancelled := if_pos huntaken
  have hvalid : isValidTransition j.state j.cancelTarget := by
    rw [htarget]
    rcases huntaken with hstate | hstate
    · rw [hstate]
      decide
    · rw [hstate]
      decide
  have hrow : (s.next (.call now (.cancel tenantID jobID actor))).jobs.find jobID = some (j.cancel now) := by
    have htenant' : refuse (tenantID ≠ [] ∧ j.tenantID ≠ tenantID) .tenantMismatch = none :=
      refuse_eq_none.mpr (by tauto)
    have hrefuse : j.refuseTransition j.cancelTarget = none := refuse_eq_none.mpr (not_not.mpr hvalid)
    simp only [next, exec, cancelJob, hj, htenant', hopen, hrefuse, recordAudit_jobs, Bool.false_eq_true, if_false]
    exact (find_updateJob (f := (·.cancel now)) (fun _ => rfl) hj).trans (by rw [if_pos rfl])
  intro hafter
  have hcancelled := (hafter jobID _ hrow).mp (by rw [show (j.cancel now).state = .cancelled from htarget]; rfl)
  rw [show (j.cancel now).completedAt = none from (h jobID j hj).completedAt_none hopen] at hcancelled
  cases hcancelled

end Store

/-- From an empty database, the ended jobs are those with a completion time at every point of a sequence
of calls exactly when none of them withdraws a job that no agent has taken. -/
theorem completedAt_iff_terminal (events : List Event) :
    (∀ pre, pre <+: events → (Store.empty.runEvents pre).Timed) ↔
      ∀ pre e, pre ++ [e] <+: events → ¬WithdrawsUntaken (Store.empty.runEvents pre) e := by
  constructor
  · intro htimed pre e hpre hwithdraw
    have hbefore := htimed pre ((List.prefix_append pre [e]).trans hpre)
    have hafter := htimed (pre ++ [e]) hpre
    rw [runEvents_append_singleton] at hafter
    exact not_timed_of_withdraws hbefore hwithdraw hafter
  · intro hok pre
    induction pre using List.reverseRecOn with
    | nil =>
      intro _ id j hj
      cases hj
    | append_singleton pre e ih =>
      intro hpre
      rw [runEvents_append_singleton]
      exact (ih ((List.prefix_append pre [e]).trans hpre)).next (hok pre e hpre)

def cancelledQueued : List Event :=
  [.call 1 (.create (str "job")
      { tenantID := str "t", endpointID := str "e", kind := actionKindScriptExec,
        requestedBy := str "op", grant := some { version := 2, grantID := str "g" },
        payloadJSON := [], idempotencyKey := [] }),
   .call 2 (.cancel (str "t") (str "job") (str "op"))]

/-- It has ended and has no completion time. -/
theorem cancelledQueued_completedAt :
    ((Store.empty.runEvents cancelledQueued).jobs.find (str "job")).map
        (fun j => (j.state, j.completedAt, j.cancelRequestedAt)) =
      some (.cancelled, none, some 2) := by
  decide +kernel

end Ominull.Response
