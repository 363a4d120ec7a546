import Ominull.Response.Store

/-! What one store operation can do to one job's row. -/

namespace Ominull.Response

open Store List

/-- The ways an operation at time `now` can leave a job's row. -/
inductive RowStep (now : Time) (op : Op) (j : JobRecord) : JobRecord → Prop where
  | keep : RowStep now op j j
  | neverTaken (hstate : j.state = .offered) (hlapsed : j.leaseLapsed now)
      (hattempt : offerAttemptsMax ≤ j.attempt) : RowStep now op j (j.failNeverTaken now)
  | lease (expiry : Time) (leaseID : Str)
      (hstate : j.state = .queued ∨ j.state = .offered ∧ j.leaseLapsed now) :
      RowStep now op j (j.lease now expiry leaseID (j.attempt + 1))
  | accept {tenantID endpointID leaseID reason : Str}
      (hop : op = .acknowledge tenantID endpointID j.id leaseID true reason)
      (hok : refuseAcknowledge now tenantID endpointID leaseID true j = none) :
      RowStep now op j (j.accept now)
  | reject {tenantID endpointID leaseID reason : Str}
      (hop : op = .acknowledge tenantID endpointID j.id leaseID false reason)
      (hok : refuseAcknowledge now tenantID endpointID leaseID false j = none) :
      RowStep now op j (j.reject now reason)
  | advance : RowStep now op j (j.advance now)
  | complete (r : JobResult) (hopen : ¬j.state.terminal)
      (hvalid : isValidTransition j.state r.target) : RowStep now op j (j.complete now r)
  | cancel {tenantID actor : Str} (hop : op = .cancel tenantID j.id actor)
      (htenant : tenantID = [] ∨ j.tenantID = tenantID) (hopen : ¬j.state.terminal)
      (hvalid : isValidTransition j.state j.cancelTarget) : RowStep now op j (j.cancel now)
  | endSession (errorCode detail : Str) (hne : j.state ≠ j.sessionTarget errorCode)
      (hvalid : isValidTransition j.state (j.sessionTarget errorCode)) :
      RowStep now op j (j.endSession now errorCode detail)

namespace Store

variable {s : Store} {now : Time} {id : Str} {j : JobRecord}

@[simp] theorem recordAudit_jobs (s : Store) (e : JobAuditEntry) : (s.recordAudit e).jobs = s.jobs :=
  rfl

variable {jobID : Str} {f : JobRecord → JobRecord}

theorem find_updateJob (hf : ∀ j, (f j).id = j.id) (hj : s.jobs.find id = some j) :
    (s.updateJob jobID f hf).jobs.find id = some (if jobID = id then f j else j) := by
  rw [updateJob, Lib.Table.find_update, hj]
  split_ifs <;> rfl

theorem find_updateJob_none (hf : ∀ j, (f j).id = j.id) (hnone : s.jobs.find id = none) :
    (s.updateJob jobID f hf).jobs.find id = none := by
  rw [updateJob, Lib.Table.find_update, hnone, Option.map_none, ite_self]

/-- What an operation can leave of a store: a row step of every row, and new rows only as they are
created. -/
structure RowsStep (now : Time) (op : Op) (s s' : Store) : Prop where
  kept : ∀ id j, s.jobs.find id = some j → ∃ j', s'.jobs.find id = some j' ∧ RowStep now op j j'
  fresh : ∀ id j', s.jobs.find id = none → s'.jobs.find id = some j' →
    j'.state = .queued ∧ j'.completedAt = none

theorem RowsStep.refl (now : Time) (op : Op) (s : Store) : RowsStep now op s s where
  kept := fun _ j hj => ⟨j, hj, .keep⟩
  fresh := fun _ _ hnone hj => by
    rw [hnone] at hj
    cases hj

variable {op : Op} {s' : Store}

theorem RowsStep.of_jobs {s : Store} (h : s'.jobs = s.jobs) : RowsStep now op s s' := by
  have hrefl := RowsStep.refl now op s
  constructor
  · rw [h]
    exact hrefl.kept
  · rw [h]
    exact hrefl.fresh

theorem updateJob_rowsStep {j₀ : JobRecord} (hj₀ : s.jobs.find jobID = some j₀) (hf : ∀ j, (f j).id = j.id)
    (hjobs : s'.jobs = (s.updateJob jobID f hf).jobs) (hstep : RowStep now op j₀ (f j₀)) : RowsStep now op s s' where
  kept := by
    intro id j hj
    rw [hjobs]
    refine ⟨_, find_updateJob hf hj, ?_⟩
    split_ifs with h
    · obtain rfl : j₀ = j := Option.some.inj (hj₀.symm.trans (h ▸ hj))
      exact hstep
    · exact .keep
  fresh := by
    intro id j' hnone hj'
    rw [hjobs, find_updateJob_none hf hnone] at hj'
    cases hj'

theorem RowsStep.inserted {s : Store} {job : JobRecord} (hins : s.jobs.insert job = some s'.jobs)
    (hstate : job.state = .queued) (htime : job.completedAt = none) : RowsStep now op s s' where
  kept := fun _ j hj => ⟨j, Lib.Table.find_insert_of_find hins hj, .keep⟩
  fresh := by
    intro id j' hnone hj'
    rw [Lib.Table.find_insert hins, hnone] at hj'
    split_ifs at hj'
    obtain rfl := Option.some.inj hj'
    exact ⟨hstate, htime⟩

/-- What `CreateJob` answers and leaves. -/
inductive Creates (now : Time) (a : CreateArgs) (s : Store) : Except StoreError JobRecord × Store → Prop where
  | refused (e : StoreError) : Creates now a s (.error e, s)
  | found {j : JobRecord} (hj : s.findIdempotent a = some j) : Creates now a s (.ok j, s)
  | created {id : Str} {g : EndpointGrant} {jobs : Lib.Table JobRecord.id} (hnew : s.findIdempotent a = none)
      (hins : s.jobs.insert (a.newJob now id g) = some jobs) :
      Creates now a s (.ok (a.newJob now id g), { s with jobs := jobs }.recordAudit
        { auditMove now (a.newJob now id g) .queued a.requestedBy .created with fromState := none })

theorem createJob_creates (s : Store) (now : Time) (freshID : Str) (a : CreateArgs) :
    Creates now a s (s.createJob now freshID a) := by
  unfold createJob
  split
  · exact .refused _
  split
  · exact .refused _
  split
  · rename_i hj
    exact .found hj
  rename_i hnew
  split
  · exact .refused _
  dsimp only
  split
  · exact .refused _
  · rename_i hins
    exact .created hnew hins

theorem Creates.rowsStep {a : CreateArgs} {r : Except StoreError JobRecord × Store} (h : Creates now a s r) (op : Op) :
    RowsStep now op s r.2 := by
  cases h with
  | refused | found => exact .refl ..
  | created _ hins => exact .inserted hins rfl rfl

/-! ## Offers -/

variable {it : JobRecord}

theorem mem_pendingJobs {tenantID endpointID : Str} {maxOffers : ℕ}
    (h : it ∈ s.pendingJobs now tenantID endpointID maxOffers) :
    s.jobs.find it.id = some it ∧ offerable now tenantID endpointID it := by
  have hmem := (mem_insertionSort _).mp (mem_of_mem_take h)
  obtain ⟨hrow, hoff⟩ := List.mem_filter.mp hmem
  exact ⟨Lib.Table.find_of_mem hrow, hoff⟩

theorem nodup_pendingJobs (s : Store) (now : Time) (tenantID endpointID : Str) (maxOffers : ℕ) :
    ((s.pendingJobs now tenantID endpointID maxOffers).map JobRecord.id).Nodup := by
  have hfilter : ((s.jobs.rows.filter (offerable now tenantID endpointID)).map
      JobRecord.id).Nodup := s.jobs.nodup.sublist (filter_sublist.map _)
  have hsort := (perm_insertionSort (fun a b : JobRecord => a.requestedAt ≤ b.requestedAt)
    (s.jobs.rows.filter (offerable now tenantID endpointID))).map JobRecord.id
  exact (hsort.nodup_iff.mpr hfilter).sublist ((take_sublist _ _).map _)

theorem offerable_state {tenantID endpointID : Str} (h : offerable now tenantID endpointID j) :
    j.state = .queued ∨ j.state = .offered ∧ j.leaseLapsed now := by
  simp only [offerable, Bool.and_eq_true, Bool.or_eq_true, decide_eq_true_eq] at h
  exact h.2

/-- What the loop over the selected rows can do: stop at any item, skip it, fail it or lease it. -/
inductive OfferLoop (now expiry : Time) : List JobRecord → Store → Store → Prop where
  | stop {items s} : OfferLoop now expiry items s s
  | skip {it items s s'} (hrest : OfferLoop now expiry items s s') : OfferLoop now expiry (it :: items) s s'
  | neverTaken {it items s s'} (hstate : it.state = .offered) (hattempt : offerAttemptsMax ≤ it.attempt)
      (hrest : OfferLoop now expiry items (s.failNeverTaken now it) s') : OfferLoop now expiry (it :: items) s s'
  | lease {it items s s'} (leaseID : Str)
      (hrest : OfferLoop now expiry items (s.leaseJob now expiry leaseID it) s') :
      OfferLoop now expiry (it :: items) s s'

theorem offerItems_loop (now expiry : Time) (leases : ℕ → Str) (items : List JobRecord) (drawn bytes : ℕ)
    (offers : List JobOffer) (s : Store) :
    OfferLoop now expiry items s (offerItems now expiry leases items drawn bytes offers s).2 := by
  induction items generalizing drawn bytes offers s with
  | nil => exact .stop
  | cons it items ih =>
    rw [offerItems]
    split_ifs with hfail hbreak
    · exact .neverTaken hfail.1 hfail.2 (ih ..)
    · exact .stop
    · cases JobRequest.unwrap it.requestJSON with
      | none => exact .skip (ih ..)
      | some r => exact .lease (leases drawn) (ih ..)

theorem find_failNeverTaken (hj : s.jobs.find id = some j) :
    (s.failNeverTaken now it).jobs.find id = some (if it.id = id then j.failNeverTaken now else j) :=
  find_updateJob (f := (·.failNeverTaken now)) (fun _ => rfl) hj

variable {expiry : Time}

theorem find_leaseJob {leaseID : Str} (hj : s.jobs.find id = some j) :
    (s.leaseJob now expiry leaseID it).jobs.find id =
      some (if it.id = id then j.lease now expiry leaseID (it.attempt + 1) else j) :=
  find_updateJob (f := (·.lease now expiry leaseID (it.attempt + 1))) (fun _ => rfl) hj

variable {items : List JobRecord}

theorem OfferLoop.find_other {s : Store} (h : OfferLoop now expiry items s s') (hid : id ∉ items.map JobRecord.id)
    (hj : s.jobs.find id = some j) : s'.jobs.find id = some j := by
  induction h with
  | stop => exact hj
  | skip _ ih =>
    rw [map_cons, mem_cons, not_or] at hid
    exact ih hid.2 hj
  | neverTaken _ _ _ ih =>
    rw [map_cons, mem_cons, not_or] at hid
    exact ih hid.2 (by rw [find_failNeverTaken hj, if_neg (Ne.symm hid.1)])
  | lease _ _ ih =>
    rw [map_cons, mem_cons, not_or] at hid
    exact ih hid.2 (by rw [find_leaseJob hj, if_neg (Ne.symm hid.1)])

/-- The rows selected for a call of `OfferPendingJobs`, as they stand in the store. -/
structure Selected (now : Time) (items : List JobRecord) (s : Store) : Prop where
  nodup : (items.map JobRecord.id).Nodup
  stored : ∀ it ∈ items, s.jobs.find it.id = some it
  offerable : ∀ it ∈ items, it.state = .queued ∨ it.state = .offered ∧ it.leaseLapsed now

theorem selected_pendingJobs (s : Store) (now : Time) (tenantID endpointID : Str) (maxOffers : ℕ) :
    Selected now (s.pendingJobs now tenantID endpointID maxOffers) s where
  nodup := nodup_pendingJobs s now tenantID endpointID maxOffers
  stored := fun _ h => (mem_pendingJobs h).1
  offerable := fun _ h => offerable_state (mem_pendingJobs h).2

theorem Selected.tail {s : Store} (h : Selected now (it :: items) s)
    (hother : ∀ id j, it.id ≠ id → s.jobs.find id = some j → s'.jobs.find id = some j) : Selected now items s' := by
  have hnodup := nodup_cons.mp h.nodup
  refine ⟨hnodup.2, fun it' hit' => ?_, fun it' hit' => h.offerable it' (mem_cons_of_mem _ hit')⟩
  apply hother _ _ _ (h.stored it' (mem_cons_of_mem _ hit'))
  intro heq
  exact hnodup.1 (heq ▸ mem_map_of_mem hit')

theorem Selected.skip (h : Selected now (it :: items) s) : Selected now items s :=
  h.tail fun _ _ _ hj => hj

theorem Selected.neverTaken (h : Selected now (it :: items) s) : Selected now items (s.failNeverTaken now it) :=
  h.tail fun _ _ hne hj => by rw [find_failNeverTaken hj, if_neg hne]

theorem Selected.lease {leaseID : Str} (h : Selected now (it :: items) s) :
    Selected now items (s.leaseJob now expiry leaseID it) :=
  h.tail fun _ _ hne hj => by rw [find_leaseJob hj, if_neg hne]

/-- The loop over the selected rows does at most one thing to a row, and only to a selected one. -/
theorem OfferLoop.rowStep {s : Store} (h : OfferLoop now expiry items s s') (hsel : Selected now items s)
    (hj : s.jobs.find id = some j) : ∃ j', s'.jobs.find id = some j' ∧ RowStep now op j j' := by
  induction h with
  | stop => exact ⟨j, hj, .keep⟩
  | skip _ ih => exact ih hsel.skip hj
  | @neverTaken it items s s' hstate hattempt hrest ih =>
    by_cases hid : it.id = id
    · -- the row's own turn; the rest of the loop is about other rows
      subst hid
      obtain rfl : it = j := Option.some.inj ((hsel.stored it mem_cons_self).symm.trans hj)
      have hlapsed := ((hsel.offerable it mem_cons_self).resolve_left (by rw [hstate]; decide)).2
      refine ⟨_, hrest.find_other (nodup_cons.mp hsel.nodup).1 ?_, .neverTaken hstate hlapsed hattempt⟩
      rw [find_failNeverTaken hj, if_pos rfl]
    · exact ih hsel.neverTaken (by rw [find_failNeverTaken hj, if_neg hid])
  | @lease it items s s' leaseID hrest ih =>
    by_cases hid : it.id = id
    · subst hid
      obtain rfl : it = j := Option.some.inj ((hsel.stored it mem_cons_self).symm.trans hj)
      refine ⟨_, hrest.find_other (nodup_cons.mp hsel.nodup).1 ?_,
        .lease expiry leaseID (hsel.offerable it mem_cons_self)⟩
      rw [find_leaseJob hj, if_pos rfl]
    · exact ih hsel.lease (by rw [find_leaseJob hj, if_neg hid])

theorem OfferLoop.find_none {s : Store} (h : OfferLoop now expiry items s s') (hnone : s.jobs.find id = none) :
    s'.jobs.find id = none := by
  induction h with
  | stop => exact hnone
  | skip _ ih => exact ih hnone
  | neverTaken _ _ _ ih => exact ih (find_updateJob_none (f := (·.failNeverTaken now)) (fun _ => rfl) hnone)
  | @lease it _ _ _ leaseID _ ih =>
    exact ih (find_updateJob_none (f := (·.lease now expiry leaseID (it.attempt + 1))) (fun _ => rfl) hnone)

theorem OfferLoop.rowsStep {s : Store} (h : OfferLoop now expiry items s s') (hsel : Selected now items s) :
    RowsStep now op s s' where
  kept := fun _ _ hj => h.rowStep hsel hj
  fresh := fun _ _ hnone hj' => by
    rw [h.find_none hnone] at hj'
    cases hj'

/-! ## The other operations -/

/-- What a call about one job does to the store: it keeps the job's supervision, and writes an entry about the job
with the row step that it tells, if there is one. -/
inductive Touches (now : Time) (op : Op) : Store → Store → Prop where
  | same {s : Store} : Touches now op s s
  | supervised {s s' : Store} {progress} (h : Touches now op { s with progress := progress } s') : Touches now op s s'
  | noted {s : Store} {j} (hj : s.jobs.find j.id = some j) (actor : Str) (details : AuditDetail) :
      Touches now op s (s.recordAudit (auditMove now j j.state actor details))
  | moved {s : Store} {jobID j f} (hj : s.jobs.find jobID = some j) (hf : ∀ j, (f j).id = j.id)
      (hstep : RowStep now op j (f j)) (hvalid : isValidTransition j.state (f j).state) (actor : Str) (details : AuditDetail) :
      Touches now op s ((s.updateJob jobID f hf).recordAudit (auditMove now j (f j).state actor details))

theorem Touches.rowsStep {s : Store} (h : Touches now op s s') : RowsStep now op s s' := by
  induction h with
  | same => exact .refl ..
  | supervised _ ih => exact ⟨ih.kept, ih.fresh⟩
  | noted => exact .of_jobs rfl
  | moved hj hf hstep => exact updateJob_rowsStep hj hf rfl hstep

theorem Touches.find_none {s : Store} (h : Touches now op s s') (hnone : s.jobs.find id = none) :
    s'.jobs.find id = none := by
  induction h with
  | same | noted => exact hnone
  | supervised _ ih => exact ih hnone
  | moved _ hf => exact find_updateJob_none hf hnone

/-- The answer of a call about one job: a refusal leaves everything as it is. -/
inductive Answers (now : Time) (op : Op) (s : Store) {α : Type} : Except StoreError α × Store → Prop where
  | refused (e : StoreError) : Answers now op s (.error e, s)
  | done (a : α) {s' : Store} (h : Touches now op s s') : Answers now op s (.ok a, s')

theorem Answers.touches {α : Type} {r : Except StoreError α × Store} (h : Answers now op s r) : Touches now op s r.2 := by
  cases h with
  | refused => exact .same
  | done _ h => exact h

theorem isValidTransition_progressTarget (j : JobRecord) : isValidTransition j.state j.progressTarget := by
  unfold JobRecord.progressTarget
  split_ifs with hstate
  · rw [hstate]
    decide
  · simp [isValidTransition]

theorem acknowledgeJob_answers (tenantID endpointID jobID leaseID : Str) (accepted : Bool) (reason : Str) :
    Answers now (.acknowledge tenantID endpointID jobID leaseID accepted reason) s
      (s.acknowledgeJob now tenantID endpointID jobID leaseID accepted reason) := by
  unfold acknowledgeJob
  split
  · exact .refused _
  rename_i j hj
  split
  · exact .refused _
  rename_i hok
  have hid := Lib.Table.key_of_find hj
  have hchecks := hok
  simp only [refuseAcknowledge, Option.or_eq_none_iff, JobRecord.refuseTransition, refuse_eq_none, not_not] at hchecks
  have hvalid := hchecks.2.2.2.2
  cases accepted with
  | true =>
    exact .done _ (.moved hj (f := (·.accept now)) (fun _ => rfl) (.accept (by rw [hid]) hok) hvalid ..)
  | false =>
    exact .done _ (.moved hj (f := (·.reject now reason)) (fun _ => rfl) (.reject (by rw [hid]) hok) hvalid ..)

theorem recordProgress_answers (op : Op) (tenantID endpointID jobID leaseID : Str) (progress : Option JobProgress) :
    Answers now op s (s.recordProgress now tenantID endpointID jobID leaseID progress) := by
  unfold recordProgress
  split
  · exact .refused _
  split
  · exact .refused _
  rename_i j hj
  split
  · exact .refused _
  exact .done _ (.moved hj (f := (·.advance now)) (fun _ => rfl) .advance (isValidTransition_progressTarget j) ..)

theorem completeJob_answers (op : Op) (tenantID endpointID jobID leaseID : Str) (result : Option JobResult) :
    Answers now op s (s.completeJob now tenantID endpointID jobID leaseID result) := by
  unfold completeJob
  split
  · exact .refused _
  rename_i r
  split
  · exact .refused _
  rename_i hj
  split
  · exact .refused _
  split
  · exact .done _ .same
  rename_i hopen
  split
  · exact .refused _
  rename_i hok
  have hvalid := (Option.or_eq_none_iff.mp hok).2
  rw [JobRecord.refuseTransition, refuse_eq_none, not_not] at hvalid
  exact .done _ (.moved hj (f := (·.complete now r)) (fun _ => rfl) (.complete r hopen hvalid) hvalid ..)

theorem cancelJob_answers (tenantID jobID requestedBy : Str) :
    Answers now (.cancel tenantID jobID requestedBy) s (s.cancelJob now tenantID jobID requestedBy) := by
  unfold cancelJob
  split
  · exact .refused _
  rename_i hj
  split
  · exact .refused _
  rename_i htenant
  split
  · exact .done _ .same
  rename_i hopen
  split
  · exact .refused _
  rename_i hvalid
  rw [JobRecord.refuseTransition, refuse_eq_none, not_not] at hvalid
  have hid := Lib.Table.key_of_find hj
  refine .done _ (.moved hj (f := (·.cancel now)) (fun _ => rfl) (.cancel (by rw [hid]) ?_ hopen hvalid) hvalid ..)
  simpa [or_iff_not_imp_left] using htenant

theorem recordHeartbeat_answers (op : Op) (tenantID endpointID : Str) (heartbeat : Option JobHeartbeat) :
    Answers now op s (s.recordHeartbeat now tenantID endpointID heartbeat) := by
  unfold recordHeartbeat
  split
  · exact .refused _
  split
  · exact .refused _
  split
  · exact .refused _
  split
  · exact .refused _
  rename_i j hj
  split
  · exact .refused _
  refine .done _ ?_
  split
  · rename_i hstate
    rw [show JobState.running = (j.advance now).state from (if_pos hstate).symm]
    refine .supervised (.moved ?_ (f := (·.advance now)) (fun _ => rfl) .advance (isValidTransition_progressTarget j) ..)
    exact hj
  split
  · split
    · refine .supervised (.noted ?_ ..)
      exact (Lib.Table.key_of_find hj).symm ▸ hj
    · exact .supervised .same
  · exact .supervised .same

theorem endSessionJob_answers (op : Op) (jobID errorCode detail : Str) :
    Answers now op s (s.endSessionJob now jobID errorCode detail) := by
  unfold endSessionJob
  split
  · exact .refused _
  rename_i hj
  split
  · exact .refused _
  dsimp only
  split
  · exact .done _ .same
  rename_i hstay
  rw [not_or, not_not] at hstay
  exact .done _ (.moved hj (f := (·.endSession now errorCode detail)) (fun _ => rfl)
    (.endSession errorCode detail hstay.1 hstay.2) hstay.2 ..)

theorem exec_touches (hcreate : ∀ freshID a, op ≠ .create freshID a) (hoffer : ∀ leases t e n d, op ≠ .offer leases t e n d) :
    Touches now op s (s.exec now op) := by
  cases op with
  | create freshID a => exact absurd rfl (hcreate freshID a)
  | offer leases t e n d => exact absurd rfl (hoffer leases t e n d)
  | acknowledge t e jobID l ok r => exact (acknowledgeJob_answers t e jobID l ok r).touches
  | progress t e jobID l p => exact (recordProgress_answers _ t e jobID l p).touches
  | heartbeat t e hb => exact (recordHeartbeat_answers _ t e hb).touches
  | complete t e jobID l r => exact (completeJob_answers _ t e jobID l r).touches
  | cancel t jobID actor => exact (cancelJob_answers t jobID actor).touches
  | endSession jobID c d => exact (endSessionJob_answers _ jobID c d).touches

theorem exec_rowsStep (op : Op) : RowsStep now op s (s.exec now op) := by
  cases op with
  | create freshID a => exact (createJob_creates s now freshID a).rowsStep _
  | offer => exact (offerItems_loop ..).rowsStep (selected_pendingJobs ..)
  | _ => exact (exec_touches (by simp) (by simp)).rowsStep

end Store

end Ominull.Response
