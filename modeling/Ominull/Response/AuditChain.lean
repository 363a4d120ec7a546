import Ominull.Response.Faults
import Mathlib.Data.List.Chain

/-! The audit entries of a job tell its states in order. -/

namespace Ominull.Response

open Go List

/-- A job's audit entries, in the order they were written, lead from its creation to `state`. -/
structure AuditChain (entries : List JobAuditEntry) (state : JobState) : Prop where
  created : ∃ e ∈ entries.head?, e.fromState = none ∧ e.toState = .queued
  linked : entries.IsChain fun e e' =>
    e'.fromState = some e.toState ∧ isValidTransition e.toState e'.toState
  current : ∃ e ∈ entries.getLast?, e.toState = state

theorem AuditChain.of_created {e : JobAuditEntry} (hfrom : e.fromState = none) (hto : e.toState = .queued) :
    AuditChain [e] .queued where
  created := ⟨e, rfl, hfrom, hto⟩
  linked := isChain_singleton e
  current := ⟨e, rfl, hto⟩

theorem AuditChain.append {entries : List JobAuditEntry} {state : JobState} {e : JobAuditEntry}
    (h : AuditChain entries state) (hfrom : e.fromState = some state)
    (hvalid : isValidTransition state e.toState) : AuditChain (entries ++ [e]) e.toState where
  created := by
    obtain ⟨e₀, he₀, hcreated⟩ := h.created
    exact ⟨e₀, by rw [head?_append, he₀]; rfl, hcreated⟩
  linked := by
    obtain ⟨e₁, he₁, hto⟩ := h.current
    rw [isChain_append]
    refine ⟨h.linked, isChain_singleton e, fun x hx y hy => ?_⟩
    obtain rfl : e₁ = x := Option.some.inj (he₁.symm.trans hx)
    obtain rfl : e = y := Option.some.inj hy
    rw [hto]
    exact ⟨hfrom, hvalid⟩
  current := ⟨e, by simp, rfl⟩

namespace Store

def history (s : Store) (id : Str) : List JobAuditEntry := s.audit.filter fun e => e.jobID = id

/-- Every job's entries lead to its state, and there are none of a job that does not exist. -/
structure Audited (s : Store) : Prop where
  chain : ∀ id j, s.jobs.find id = some j → AuditChain (s.history id) j.state
  absent : ∀ id, s.jobs.find id = none → s.history id = []

variable {s : Store} {now : Time} {id : Str} {j : JobRecord}

theorem history_recordAudit (s : Store) (e : JobAuditEntry) (id : Str) :
    (s.recordAudit e).history id = s.history id ++ if e.jobID = id then [e] else [] := by
  simp only [history, recordAudit, filter_append]
  split_ifs with hid <;> simp [hid]

/-- One entry, and a change of no row but its job's: it says what became of that row. -/
theorem Audited.log (h : s.Audited) {s' : Store} {e : JobAuditEntry} {j n : JobRecord}
    (hj : s.jobs.find e.jobID = some j) (hn : s'.jobs.find e.jobID = some n)
    (hother : ∀ id, e.jobID ≠ id → s'.jobs.find id = s.jobs.find id)
    (haudit : s'.audit = s.audit) (hfrom : e.fromState = some j.state) (hto : e.toState = n.state)
    (hvalid : isValidTransition j.state n.state) : (s'.recordAudit e).Audited := by
  have hhistory : ∀ id, s'.history id = s.history id := fun id => by rw [history, haudit, history]
  constructor
  · intro id k hk
    rw [history_recordAudit, hhistory]
    by_cases hid : e.jobID = id
    · subst hid
      obtain rfl : n = k := Option.some.inj (hn.symm.trans hk)
      rw [if_pos rfl, ← hto]
      exact (h.chain _ j hj).append hfrom (hto ▸ hvalid)
    · rw [if_neg hid, append_nil]
      exact h.chain id k (hother id hid ▸ hk)
  · intro id hnone
    rw [recordAudit_jobs] at hnone
    rw [history_recordAudit, hhistory]
    have hid : e.jobID ≠ id := by
      rintro rfl
      rw [hn] at hnone
      cases hnone
    rw [if_neg hid, append_nil]
    exact h.absent id (hother id hid ▸ hnone)

theorem Audited.move (h : s.Audited) (hj : s.jobs.find id = some j) {f : JobRecord → JobRecord}
    (hf : ∀ j, (f j).id = j.id) {target : JobState} (htarget : (f j).state = target)
    (hvalid : isValidTransition j.state target) (actor : Str) (details : AuditDetail) :
    ((s.updateJob id f hf).recordAudit (auditMove now j target actor details)).Audited := by
  have hid : j.id = id := Lib.Table.key_of_find hj
  subst hid
  refine h.log (j := j) (n := f j) hj ?_ ?_ rfl rfl htarget.symm (htarget ▸ hvalid)
  · exact (find_updateJob hf hj).trans (by rw [if_pos rfl])
  · exact fun id hne => Lib.Table.find_update_other _ f hf hne

theorem Audited.noted (h : s.Audited) (hj : s.jobs.find j.id = some j) (actor : Str) (details : AuditDetail) :
    (s.recordAudit (auditMove now j j.state actor details)).Audited :=
  h.log (j := j) (n := j) hj hj (fun _ _ => rfl) rfl rfl rfl (by simp [isValidTransition])

theorem Audited.withProgress (h : s.Audited) (progress : Lib.Table JobSupervision.jobID) :
    { s with progress := progress }.Audited :=
  ⟨h.chain, h.absent⟩

/-! ## The operations -/

/-- A new job, with the entry of its creation. -/
theorem Audited.created (h : s.Audited) {job : JobRecord} {jobs : Lib.Table JobRecord.id} {e : JobAuditEntry}
    (hins : s.jobs.insert job = some jobs) (hstate : job.state = .queued) (hid : e.jobID = job.id)
    (hfrom : e.fromState = none) (hto : e.toState = .queued) : ({ s with jobs := jobs }.recordAudit e).Audited := by
  have hnone := (Lib.Table.insert_rows hins).2
  have hhistory : ∀ k, ({ s with jobs := jobs } : Store).history k = s.history k := fun _ => rfl
  constructor
  · intro k j hj
    rw [recordAudit_jobs, Lib.Table.find_insert hins] at hj
    rw [history_recordAudit, hhistory, hid]
    split_ifs at hj with hk
    · obtain rfl := Option.some.inj hj
      rw [if_pos hk, h.absent k (hk ▸ hnone), hstate]
      exact AuditChain.of_created hfrom hto
    · rw [if_neg hk, append_nil]
      exact h.chain k j hj
  · intro k hk
    rw [recordAudit_jobs, Lib.Table.find_insert hins] at hk
    rw [history_recordAudit, hhistory, hid]
    split_ifs at hk with hne
    rw [if_neg hne, append_nil]
    exact h.absent k hk

theorem Audited.createUnread (h : s.Audited) (freshID : Str) (a : CreateArgs) :
    (s.createUnread now freshID a).Audited := by
  obtain hsame | ⟨job, jobs, e, hins, hstate, -, hid, hfrom, hto, heq⟩ := createUnread_cases s now freshID a
  · rw [hsame]
    exact h
  · rw [heq]
    exact h.created hins hstate hid hfrom hto

theorem Audited.createJob (h : s.Audited) (freshID : Str) (a : CreateArgs) :
    (s.createJob now freshID a).2.Audited := by
  have hcreates := createJob_creates s now freshID a
  generalize s.createJob now freshID a = r at hcreates ⊢
  cases hcreates with
  | refused | found => exact h
  | created _ hins => exact h.created hins rfl rfl rfl rfl

theorem OfferLoop.audited {expiry : Time} {items : List JobRecord} {s s' : Store}
    (hloop : OfferLoop now expiry items s s') (hsel : Selected now items s) (h : s.Audited) : s'.Audited := by
  induction hloop with
  | stop => exact h
  | skip _ ih => exact ih hsel.skip h
  | @neverTaken it _ _ _ hstate _ _ ih =>
    apply ih hsel.neverTaken
    apply h.move (hsel.stored it mem_cons_self) (f := (·.failNeverTaken now)) (fun _ => rfl) rfl
    rw [hstate]
    rfl
  | @lease it _ _ _ leaseID _ ih =>
    apply ih hsel.lease
    apply h.move (hsel.stored it mem_cons_self) (f := (·.lease now expiry leaseID (it.attempt + 1)))
      (fun _ => rfl) rfl
    obtain hstate | ⟨hstate, -⟩ := hsel.offerable it mem_cons_self
    · rw [hstate]
      rfl
    · rw [hstate]
      rfl

theorem Audited.touches {op : Op} {s s' : Store} (h : s.Audited) (htouches : Touches now op s s') : s'.Audited := by
  induction htouches with
  | same => exact h
  | supervised _ ih => exact ih (h.withProgress _)
  | noted hj actor details => exact h.noted hj actor details
  | moved hj hf _ hvalid actor details => exact h.move hj hf rfl hvalid actor details

theorem Audited.exec (h : s.Audited) (op : Op) : (s.exec now op).Audited := by
  cases op with
  | create freshID a => exact h.createJob freshID a
  | offer => exact (offerItems_loop ..).audited (selected_pendingJobs ..) h
  | _ => exact h.touches (exec_touches (by simp) (by simp))

theorem Audited.next (h : s.Audited) (e : Event) : (s.next e).Audited := by
  cases e with
  | call now op => exact h.exec op
  | fault => exact h
  | createUnread now freshID a => exact h.createUnread freshID a
  | offerFaulty => exact (offerItemsFaulty_loop ..).audited (selected_pendingJobs ..) h
  | heartbeatOnly now t e hb => exact h.withProgress _

theorem audited_empty : Store.empty.Audited where
  chain := fun _ _ hj => by cases hj
  absent := fun _ _ => rfl

/-- After every sequence of calls, whichever of their statements other than the audit's fail, a job's
entries lead from its creation step by step to its state. -/
theorem audit_chain (events : List Event) (id : Str) (j : JobRecord)
    (hj : (Store.empty.runEvents events).jobs.find id = some j) :
    AuditChain ((Store.empty.runEvents events).history id) j.state := by
  have haudited := runEvents_preserves (I := Audited) (fun _ e h => h.next e) audited_empty events
  exact haudited.chain id j hj

/-- A job offered twice, accepted, cancelled while it ran and reported cancelled; the first attempt to
lease it and the first move to running fail. -/
def cancelledWhileRunning : List Event :=
  let beat : JobHeartbeat := { jobID := str "job", leaseID := str "second", phase := phaseRunning }
  [.call 1 (.create (str "job")
      { tenantID := str "t", endpointID := str "e", kind := actionKindScriptExec,
        requestedBy := str "op", grant := some { version := 2, grantID := str "g" },
        payloadJSON := [], idempotencyKey := [] }),
   .offerFaulty (fun _ => true) 2 (fun _ => str "lost") (str "t") (str "e") 4 0,
   .call 3 (.offer (fun _ => str "first") (str "t") (str "e") 4 0),
   .call (130 * second) (.offer (fun _ => str "second") (str "t") (str "e") 4 0),
   .call (131 * second) (.acknowledge (str "t") (str "e") (str "job") (str "second") true []),
   .heartbeatOnly (132 * second) (str "t") (str "e") (some beat),
   .call (133 * second) (.heartbeat (str "t") (str "e") (some beat)),
   .call (134 * second) (.cancel (str "t") (str "job") (str "op")),
   .call (135 * second) (.complete (str "t") (str "e") (str "job") (str "second")
      (some { state := str "cancelled" }))]

theorem audit_chain_cancelledWhileRunning :
    ∃ j, (Store.empty.runEvents cancelledWhileRunning).jobs.find (str "job") = some j ∧
      ((Store.empty.runEvents cancelledWhileRunning).history (str "job")).map (·.toState) =
        [.queued, .offered, .offered, .acknowledged, .running, .cancelRequested, .cancelled] ∧
      AuditChain ((Store.empty.runEvents cancelledWhileRunning).history (str "job")) j.state := by
  have hstate : ((Store.empty.runEvents cancelledWhileRunning).jobs.find (str "job")).map JobRecord.state =
      some .cancelled := by decide +kernel
  obtain ⟨j, hj, -⟩ := Option.map_eq_some_iff.mp hstate
  exact ⟨j, hj, by decide +kernel, audit_chain cancelledWhileRunning (str "job") j hj⟩

end Store

end Ominull.Response
