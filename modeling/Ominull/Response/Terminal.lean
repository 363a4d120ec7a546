import Ominull.Response.RowStep

/-! Whether a job that has ended keeps its outcome. -/

namespace Ominull.Response

open Store

def JobRecord.outcome (j : JobRecord) : JobState × Option Str × Option Str × Option Time :=
  (j.state, j.resultJSON, j.errorCode, j.completedAt)

/-- A rejection, under the job's own lease and before that lapses, of a job that has already
failed, with another reason or at another time than the failure on record. -/
def RewritesFailure (s : Store) (now : Time) (op : Op) (id : Str) : Prop :=
  ∃ tenantID endpointID leaseID reason j,
    op = .acknowledge tenantID endpointID id leaseID false reason ∧
    s.jobs.find id = some j ∧ j.state = .failed ∧
    (tenantID = [] ∨ j.tenantID = tenantID) ∧ (endpointID = [] ∨ j.endpointID = endpointID) ∧
    j.leaseID = some leaseID ∧ ¬j.leaseLapsed now ∧
    (j.errorCode ≠ some reason ∨ j.completedAt ≠ some now)

variable {s : Store} {now : Time} {op : Op} {id : Str} {j j' : JobRecord}

theorem isValidTransition_of_terminal {source target : JobState} (hterm : source.terminal)
    (h : isValidTransition source target) : source = target := by
  revert hterm h
  cases source <;> cases target <;> decide

theorem refuseAcknowledge_eq_none {tenantID endpointID leaseID : Str} {accepted : Bool} :
    refuseAcknowledge now tenantID endpointID leaseID accepted j = none ↔
      (tenantID = [] ∨ j.tenantID = tenantID) ∧ (endpointID = [] ∨ j.endpointID = endpointID) ∧
      j.leaseID = some leaseID ∧ ¬j.leaseLapsed now ∧
      isValidTransition j.state (ackTarget accepted) := by
  simp only [refuseAcknowledge, JobRecord.refuseNull, JobRecord.refuseBinding,
    JobRecord.refuseLease, JobRecord.refuseLapsed, JobRecord.refuseTransition,
    Option.or_eq_none_iff, refuse_eq_none, not_and_or, not_not, and_assoc]
  constructor
  · rintro ⟨-, h⟩
    exact h
  · intro h
    exact ⟨by rw [h.2.2.1]; simp, h⟩

/-- The only row step that touches a finished job's outcome is a rejection of a failed one. -/
theorem RowStep.outcome_eq (h : RowStep now op j j') (hterm : j.state.terminal)
    (hj : s.jobs.find id = some j) (hok : ¬RewritesFailure s now op id) : j'.outcome = j.outcome := by
  have hopen : ∀ {st : JobState}, j.state = st → ¬st.terminal → j'.outcome = j.outcome :=
    fun hst hnot => absurd (hst ▸ hterm) hnot
  cases h with
  | keep => rfl
  | neverTaken hstate => exact hopen hstate (by decide)
  | lease _ _ hstate =>
    rcases hstate with hstate | ⟨hstate, -⟩
    · exact hopen hstate (by decide)
    · exact hopen hstate (by decide)
  | accept _ hrefuse =>
    have hvalid := (refuseAcknowledge_eq_none.mp hrefuse).2.2.2.2
    exact hopen (isValidTransition_of_terminal hterm hvalid) (by decide)
  | @reject tenantID endpointID leaseID reason hop hrefuse =>
    obtain ⟨htenant, hendpoint, hlease, hlapsed, hvalid⟩ := refuseAcknowledge_eq_none.mp hrefuse
    have hfailed : j.state = .failed := isValidTransition_of_terminal hterm hvalid
    have hsame : j.errorCode = some reason ∧ j.completedAt = some now := by
      by_contra hdiff
      rw [Lib.Table.key_of_find hj] at hop
      exact hok ⟨tenantID, endpointID, leaseID, reason, j, hop, hj, hfailed, htenant, hendpoint,
        hlease, hlapsed, not_and_or.mp hdiff⟩
    simp only [JobRecord.outcome, JobRecord.reject, hfailed, hsame]
  | advance =>
    have hstate : j.progressTarget = j.state :=
      if_neg fun hst => absurd (hst ▸ hterm) (by decide)
    simp only [JobRecord.outcome, JobRecord.advance, hstate]
  | complete _ hnot | cancel _ _ hnot => exact absurd hterm hnot
  | endSession _ _ hne hvalid => exact absurd (isValidTransition_of_terminal hterm hvalid) hne

theorem RewritesFailure.outcome_ne (h : RewritesFailure s now op id) :
    ((s.exec now op).jobs.find id).map JobRecord.outcome ≠ (s.jobs.find id).map JobRecord.outcome := by
  obtain ⟨tenantID, endpointID, leaseID, reason, j, rfl, hj, hfailed, htenant, hendpoint, hlease,
    hlapsed, hdiff⟩ := h
  have hrefuse : refuseAcknowledge now tenantID endpointID leaseID false j = none :=
    refuseAcknowledge_eq_none.mpr
      ⟨htenant, hendpoint, hlease, hlapsed, by rw [hfailed]; decide⟩
  have hrow : (s.exec now (.acknowledge tenantID endpointID id leaseID false reason)).jobs.find id =
      some (j.reject now reason) := by
    simp only [Store.exec, acknowledgeJob, hj, hrefuse, recordAudit_jobs]
    exact (find_updateJob (f := (·.reject now reason)) (fun _ => rfl) hj).trans (by rw [if_pos rfl])
  rw [hrow, hj]
  simp only [Option.map_some, ne_eq, Option.some.injEq, JobRecord.outcome, JobRecord.reject,
    Prod.mk.injEq, not_and_or]
  rcases hdiff with hdiff | hdiff
  · exact .inr (.inr (.inl (Ne.symm hdiff)))
  · exact .inr (.inr (.inr (Ne.symm hdiff)))

@[simp] theorem Store.run_append_singleton (s : Store) (ops : List (Time × Op)) (op : Time × Op) :
    s.run (ops ++ [op]) = (s.run ops).exec op.1 op.2 := by
  simp [Store.run]

/-- A finished job keeps its outcome through a run exactly when no call of the run rewrites its
failure. -/
theorem terminal_outcome_fixed_iff (s : Store) (ops : List (Time × Op)) (id : Str) (j : JobRecord)
    (hj : s.jobs.find id = some j) (hterm : j.state.terminal) :
    (∀ pre, pre <+: ops → ((s.run pre).jobs.find id).map JobRecord.outcome = some j.outcome) ↔
      ∀ pre op, pre ++ [op] <+: ops → ¬RewritesFailure (s.run pre) op.1 op.2 id := by
  constructor
  · intro hfixed pre op hpre hrewrite
    have hbefore := hfixed pre ((List.prefix_append pre [op]).trans hpre)
    have hafter := hfixed (pre ++ [op]) hpre
    rw [Store.run_append_singleton] at hafter
    exact hrewrite.outcome_ne (hafter.trans hbefore.symm)
  · intro hok pre
    induction pre using List.reverseRecOn with
    | nil =>
      simp [Store.run, hj]
    | append_singleton pre op ih =>
      intro hpre
      obtain ⟨j₁, hj₁, hout⟩ :=
        Option.map_eq_some_iff.mp (ih ((List.prefix_append pre [op]).trans hpre))
      have hterm₁ : j₁.state.terminal := by
        rw [show j₁.state = j.state from congrArg Prod.fst hout]
        exact hterm
      obtain ⟨j₂, hj₂, hstep⟩ := (exec_rowsStep op.2).kept id j₁ hj₁
      rw [Store.run_append_singleton, hj₂, Option.map_some,
        hstep.outcome_eq hterm₁ hj₁ (hok pre op hpre), hout]

/-- A job created, offered, accepted and reported failed, all under one lease. -/
def failedRun : List (Time × Op) :=
  [(1, .create (str "job")
      { tenantID := str "t", endpointID := str "e", kind := actionKindScriptExec,
        requestedBy := str "op", grant := some { version := 2, grantID := str "g" },
        payloadJSON := [], idempotencyKey := [] }),
   (2, .offer (fun _ => str "lease") (str "t") (str "e") 4 0),
   (3, .acknowledge (str "t") (str "e") (str "job") (str "lease") true []),
   (4, .complete (str "t") (str "e") (str "job") (str "lease")
      (some { state := str "failed", errorCode := str "boom", exitCode := 1 }))]

/-- The endpoint's late rejection of that job, its lease still open. -/
def lateRejection : Time × Op :=
  (5, .acknowledge (str "t") (str "e") (str "job") (str "lease") false (str "late"))

/-- The exact condition at the job that run leaves, for the late rejection. -/
theorem failedRun_outcome_fixed_iff :
    ∃ j, (Store.empty.run failedRun).jobs.find (str "job") = some j ∧ j.state.terminal ∧
      ((∀ pre, pre <+: [lateRejection] →
          (((Store.empty.run failedRun).run pre).jobs.find (str "job")).map JobRecord.outcome =
            some j.outcome) ↔
        ∀ pre op, pre ++ [op] <+: [lateRejection] →
          ¬RewritesFailure ((Store.empty.run failedRun).run pre) op.1 op.2 (str "job")) := by
  have hstate : ((Store.empty.run failedRun).jobs.find (str "job")).map JobRecord.state =
      some .failed := by decide +kernel
  obtain ⟨j, hj, hfailed⟩ := Option.map_eq_some_iff.mp hstate
  have hterm : j.state.terminal := by rw [hfailed]; rfl
  exact ⟨j, hj, hterm, terminal_outcome_fixed_iff _ [lateRejection] (str "job") j hj hterm⟩

/-- The late rejection replaces the error code and the completion time of the finished job. -/
theorem late_rejection_changes_outcome :
    ((failedRun ++ [lateRejection]).map Prod.fst).Pairwise (· ≤ ·) ∧
    ((Store.empty.run failedRun).jobs.find (str "job")).map
        (fun j => (j.state, j.errorCode, j.completedAt)) =
      some (.failed, some (str "boom"), some 4) ∧
    ((Store.empty.run (failedRun ++ [lateRejection])).jobs.find (str "job")).map
        (fun j => (j.state, j.errorCode, j.completedAt)) =
      some (.failed, some (str "late"), some 5) := by
  decide +kernel

end Ominull.Response
