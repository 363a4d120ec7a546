import Ominull.Response.Faults

/-! A job is taken once: from the acceptance of a lease on it is offered no more. -/

namespace Ominull.Response

open Store

variable {s s' : Store} {now expiry : Time} {op : Op} {id : Str} {j j' : JobRecord}

namespace Store

def offersOf (s : Store) : Event → List JobOffer
  | .call now (.offer leases t e n d) => (s.offerPendingJobs now leases t e n d).1
  | .offerFaulty fails now leases t e n d => (s.offerFaulty fails now leases t e n d).1
  | _ => []

/-- An event in which an endpoint accepts the job while it is offered, and is told so. -/
def Takes (s : Store) (id : Str) (e : Event) : Prop :=
  ∃ now tenantID endpointID leaseID reason j,
    e = .call now (.acknowledge tenantID endpointID id leaseID true reason) ∧
    s.jobs.find id = some j ∧ j.state = .offered ∧
    (s.acknowledgeJob now tenantID endpointID id leaseID true reason).1 = .ok ()

def Left (s : Store) (id : Str) : Prop :=
  ∃ j, s.jobs.find id = some j ∧ j.state ≠ .queued ∧ j.state ≠ .offered

theorem next_rowsStep (s : Store) (e : Event) : ∃ now op, RowsStep now op s (s.next e) := by
  cases e with
  | call now op => exact ⟨now, op, exec_rowsStep op⟩
  | fault => exact ⟨0, .cancel [] [] [], .refl ..⟩
  | createUnread now freshID a =>
    refine ⟨now, .create freshID a, ?_⟩
    obtain hsame | ⟨job, jobs, _, hins, hstate, htime, -, -, -, heq⟩ := createUnread_cases s now freshID a
    · show RowsStep _ _ s (s.createUnread now freshID a)
      rw [hsame]
      exact .refl ..
    · show RowsStep _ _ s (s.createUnread now freshID a)
      rw [heq]
      exact .inserted hins hstate htime
  | offerFaulty fails now leases t e n d =>
    exact ⟨now, .offer leases t e n d, (offerItemsFaulty_loop ..).rowsStep (selected_pendingJobs ..)⟩
  | heartbeatOnly now t e hb => exact ⟨now, .heartbeat t e hb, .of_jobs rfl⟩

end Store

theorem cancelTarget_left (j : JobRecord) : j.cancelTarget ≠ .queued ∧ j.cancelTarget ≠ .offered := by
  unfold JobRecord.cancelTarget
  split_ifs <;> decide

theorem target_left (r : JobResult) : r.target ≠ .queued ∧ r.target ≠ .offered := by
  unfold JobResult.target
  split_ifs <;> decide

theorem sessionTarget_left (j : JobRecord) (errorCode : Str) :
    j.sessionTarget errorCode ≠ .queued ∧ j.sessionTarget errorCode ≠ .offered := by
  unfold JobRecord.sessionTarget
  split_ifs <;> decide

theorem RowStep.left (h : RowStep now op j j') (hj : j.state ≠ .queued ∧ j.state ≠ .offered) :
    j'.state ≠ .queued ∧ j'.state ≠ .offered := by
  cases h with
  | keep => exact hj
  | neverTaken hstate => exact absurd hstate hj.2
  | lease _ _ hstate =>
    rcases hstate with hstate | ⟨hstate, -⟩
    · exact absurd hstate hj.1
    · exact absurd hstate hj.2
  | accept | reject => exact ⟨JobState.noConfusion, JobState.noConfusion⟩
  | advance =>
    show j.progressTarget ≠ .queued ∧ j.progressTarget ≠ .offered
    unfold JobRecord.progressTarget
    split_ifs
    · decide
    · exact hj
  | complete r => exact target_left r
  | cancel => exact cancelTarget_left j
  | endSession errorCode => exact sessionTarget_left j errorCode

namespace Store

theorem Left.next (h : s.Left id) (e : Event) : (s.next e).Left id := by
  obtain ⟨j, hj, hstate⟩ := h
  obtain ⟨now, op, hstep⟩ := next_rowsStep s e
  obtain ⟨j', hj', hrow⟩ := hstep.kept id j hj
  exact ⟨j', hj', hrow.left hstate⟩

theorem Left.runEvents (h : s.Left id) (events : List Event) : (s.runEvents events).Left id :=
  runEvents_preserves (I := fun s => s.Left id) (fun _ e h => h.next e) h events

theorem Takes.left {e : Event} (h : s.Takes id e) : (s.next e).Left id := by
  obtain ⟨now, tenantID, endpointID, leaseID, reason, j, rfl, hj, -, hok⟩ := h
  refine ⟨j.accept now, ?_, JobState.noConfusion, JobState.noConfusion⟩
  simp only [next, exec, acknowledgeJob, hj] at hok ⊢
  cases hrefuse : refuseAcknowledge now tenantID endpointID leaseID true j with
  | some e =>
    rw [hrefuse] at hok
    cases hok
  | none => exact (find_updateJob (f := (·.accept now)) (fun _ => rfl) hj).trans (by rw [if_pos rfl])

theorem Left.not_takes (h : s.Left id) (e : Event) : ¬s.Takes id e := by
  rintro ⟨_, _, _, _, _, j, -, hj, hstate, -⟩
  obtain ⟨j', hj', -, hleft⟩ := h
  obtain rfl : j = j' := Option.some.inj (hj.symm.trans hj')
  exact hleft hstate

/-! ## What is offered -/

theorem offerItems_eq_faulty (now expiry : Time) (leases : ℕ → Str) (items : List JobRecord)
    (drawn bytes : ℕ) (offers : List JobOffer) (s : Store) :
    offerItems now expiry leases items drawn bytes offers s =
      offerItemsFaulty (fun _ => false) now expiry leases items drawn bytes offers s := by
  induction items generalizing drawn bytes offers s with
  | nil => rfl
  | cons it items ih =>
    rw [offerItems, offerItemsFaulty]
    simp only [Bool.false_eq_true, if_false]
    split_ifs
    · exact ih ..
    · rfl
    · cases JobRequest.unwrap it.requestJSON with
      | none | some r => exact ih ..

theorem offerPendingJobs_eq_faulty (s : Store) (now : Time) (leases : ℕ → Str) (tenantID endpointID : Str)
    (maxOffers : Int) (leaseDuration : Time) :
    s.offerPendingJobs now leases tenantID endpointID maxOffers leaseDuration =
      s.offerFaulty (fun _ => false) now leases tenantID endpointID maxOffers leaseDuration :=
  offerItems_eq_faulty ..

/-- Offers are made of selected jobs. -/
theorem mem_offerItemsFaulty {fails : Str → Bool} {leases : ℕ → Str} {items : List JobRecord}
    {drawn bytes : ℕ} {offers : List JobOffer} {o : JobOffer}
    (h : o ∈ (offerItemsFaulty fails now expiry leases items drawn bytes offers s).1) :
    o ∈ offers ∨ o.jobID ∈ items.map JobRecord.id := by
  induction items generalizing drawn bytes offers s with
  | nil => exact .inl h
  | cons it items ih =>
    have hrest : ∀ {drawn bytes offers s},
        o ∈ (offerItemsFaulty fails now expiry leases items drawn bytes offers s).1 →
        o ∈ offers ∨ o.jobID ∈ (it :: items).map JobRecord.id :=
      fun h => (ih h).imp_right (List.mem_cons_of_mem _)
    rw [offerItemsFaulty] at h
    split at h
    · exact hrest h
    split at h
    · exact .inl h
    split at h
    · exact hrest h
    split at h
    · exact hrest h
    · rcases hrest h with ho | ho
      · rcases List.mem_append.mp ho with ho | ho
        · exact .inl ho
        · rw [List.mem_singleton.mp ho]
          exact .inr List.mem_cons_self
      · exact .inr ho

theorem mem_offerFaulty {fails : Str → Bool} {leases : ℕ → Str} {tenantID endpointID : Str} {maxOffers : Int}
    {leaseDuration : Time} {o : JobOffer}
    (h : o ∈ (s.offerFaulty fails now leases tenantID endpointID maxOffers leaseDuration).1) :
    ∃ j, s.jobs.find o.jobID = some j ∧ (j.state = .queued ∨ j.state = .offered) := by
  obtain ho | ho := mem_offerItemsFaulty h
  · cases ho
  · obtain ⟨it, hit, hid⟩ := List.mem_map.mp ho
    obtain ⟨hfind, hoff⟩ := mem_pendingJobs hit
    exact ⟨it, hid ▸ hfind, (offerable_state hoff).imp_right And.left⟩

theorem mem_offersOf {e : Event} {o : JobOffer} (h : o ∈ s.offersOf e) :
    ∃ j, s.jobs.find o.jobID = some j ∧ (j.state = .queued ∨ j.state = .offered) := by
  unfold offersOf at h
  split at h
  · rw [offerPendingJobs_eq_faulty] at h
    exact mem_offerFaulty h
  · exact mem_offerFaulty h
  · cases h

theorem Left.not_offered (h : s.Left id) (e : Event) : id ∉ (s.offersOf e).map JobOffer.jobID := by
  intro hmem
  obtain ⟨o, ho, rfl⟩ := List.mem_map.mp hmem
  obtain ⟨j, hj, hstate⟩ := mem_offersOf ho
  obtain ⟨j', hj', hqueued, hoffered⟩ := h
  obtain rfl : j = j' := Option.some.inj (hj.symm.trans hj')
  exact hstate.elim hqueued hoffered

/-- Once an endpoint has accepted a lease of an offered job, the job stays in a state other than queued and
offered, no event offers it again and none is another acceptance of it as an offered job. -/
theorem taken_once (id : Str) (e : Event) (h : s.Takes id e) (later : List Event) :
    let t := (s.next e).runEvents later
    (∃ j, t.jobs.find id = some j ∧ j.state ≠ .queued ∧ j.state ≠ .offered) ∧
      ∀ e', id ∉ (t.offersOf e').map JobOffer.jobID ∧ ¬t.Takes id e' := by
  have hleft := h.left.runEvents later
  exact ⟨hleft, fun e' => ⟨hleft.not_offered e', hleft.not_takes e'⟩⟩

def offeredScript : Store :=
  Store.empty.runEvents
    [.call 1 (.create (str "job")
      { tenantID := str "t", endpointID := str "e", kind := actionKindScriptExec,
        requestedBy := str "op", grant := some { version := 2, grantID := str "g" },
        payloadJSON := [], idempotencyKey := [] }),
     .call 2 (.offer (fun _ => str "lease0") (str "t") (str "e") 4 0)]

/-- Its lease is accepted, and lapses afterwards: the job is not offered again. -/
theorem taken_once_script :
    let e : Event := .call 3 (.acknowledge (str "t") (str "e") (str "job") (str "lease0") true [])
    let t := (offeredScript.next e).runEvents
      [.call (1000 * second) (.offer (fun _ => str "lease1") (str "t") (str "e") 4 0)]
    offeredScript.Takes (str "job") e ∧
      (∃ j, t.jobs.find (str "job") = some j ∧ j.state ≠ .queued ∧ j.state ≠ .offered) ∧
      ∀ e', str "job" ∉ (t.offersOf e').map JobOffer.jobID ∧ ¬t.Takes (str "job") e' := by
  intro e t
  have hoffered : (offeredScript.jobs.find (str "job")).map JobRecord.state = some .offered := by decide +kernel
  obtain ⟨j, hj, hstate⟩ := Option.map_eq_some_iff.mp hoffered
  have htakes : offeredScript.Takes (str "job") e :=
    ⟨3, str "t", str "e", str "lease0", [], j, rfl, hj, hstate, by decide +kernel⟩
  exact ⟨htakes, taken_once (str "job") e htakes _⟩

end Store

end Ominull.Response
