import Ominull.Response.RowStep

/-!
The job store when statements of the database fail. A call whose reads fail, or whose only write
does, changes nothing; the operations that go on after a failed statement are the creation of a job,
the offers of several jobs and the heartbeat, whose row is written before the job's.
-/

namespace Ominull.Response

namespace Store

/-- `CreateJob` when the lookup of its idempotency key fails: it goes on as if no job had the key. -/
def createUnread (s : Store) (now : Time) (freshID : Str) (a : CreateArgs) : Store :=
  match a.grant with
  | none => s
  | some g =>
    if a.tenantID = [] ∨ a.endpointID = [] then s
    else if g.version = grantVersionJob ∧ ¬uuidParses g.jobID then s
    else
      let job := a.newJob now (if g.version = grantVersionJob then g.jobID else freshID) g
      match s.jobs.insert job with
      | none => s
      | some jobs =>
        { s with jobs := jobs }.recordAudit
          { auditMove now job .queued a.requestedBy .created with fromState := none }

/-- The loop of `OfferPendingJobs` when the rows of the jobs in `fails` cannot be written: such a job
stays as it is and makes no offer. -/
def offerItemsFaulty (fails : Str → Bool) (now expiry : Time) (leases : ℕ → Str) :
    List JobRecord → ℕ → ℕ → List JobOffer → Store → List JobOffer × Store
  | [], _, _, offers, s => (offers, s)
  | it :: items, drawn, bytes, offers, s =>
    if it.state = .offered ∧ offerAttemptsMax ≤ it.attempt then
      offerItemsFaulty fails now expiry leases items drawn bytes offers
        (if fails it.id then s else s.failNeverTaken now it)
    else if offers ≠ [] ∧ offerBytesMax < bytes + it.requestJSON.length then (offers, s)
    else
      let bytes := bytes + it.requestJSON.length
      match JobRequest.unwrap it.requestJSON with
      | none => offerItemsFaulty fails now expiry leases items (drawn + 1) bytes offers s
      | some r =>
        if fails it.id then offerItemsFaulty fails now expiry leases items (drawn + 1) bytes offers s
        else
          offerItemsFaulty fails now expiry leases items (drawn + 1) bytes
            (offers ++ [it.offer expiry (leases drawn) r])
            (s.leaseJob now expiry (leases drawn) it)

def offerFaulty (s : Store) (fails : Str → Bool) (now : Time) (leases : ℕ → Str)
    (tenantID endpointID : Str) (maxOffers : Int) (leaseDuration : Time) : List JobOffer × Store :=
  let maxOffers := if maxOffers ≤ 0 ∨ 10 < maxOffers then 4 else maxOffers.toNat
  let leaseDuration := if leaseDuration ≤ 0 then 120 * second else leaseDuration
  offerItemsFaulty fails now (now + leaseDuration) leases
    (s.pendingJobs now tenantID endpointID maxOffers) 0 0 [] s

def heartbeatOnly (s : Store) (now : Time) (tenantID endpointID : Str)
    (heartbeat : Option JobHeartbeat) : Store :=
  { s with progress := (s.recordHeartbeat now tenantID endpointID heartbeat).2.progress }

end Store

/-- A call of the store that succeeds, or one with a statement that fails. -/
inductive Event where
  | call (now : Time) (op : Op)
  | fault
  | createUnread (now : Time) (freshID : Str) (args : CreateArgs)
  | offerFaulty (fails : Str → Bool) (now : Time) (leases : ℕ → Str) (tenantID endpointID : Str)
      (maxOffers : Int) (leaseDuration : Time)
  | heartbeatOnly (now : Time) (tenantID endpointID : Str) (heartbeat : Option JobHeartbeat)

namespace Store

def next (s : Store) : Event → Store
  | .call now op => s.exec now op
  | .fault => s
  | .createUnread now freshID a => s.createUnread now freshID a
  | .offerFaulty fails now leases t e n d => (s.offerFaulty fails now leases t e n d).2
  | .heartbeatOnly now t e hb => s.heartbeatOnly now t e hb

def runEvents (s : Store) (events : List Event) : Store := events.foldl next s

@[simp] theorem runEvents_append_singleton (s : Store) (events : List Event) (e : Event) :
    s.runEvents (events ++ [e]) = (s.runEvents events).next e := by
  simp [runEvents]

theorem runEvents_preserves {I : Store → Prop} (hstep : ∀ s e, I s → I (s.next e)) {s : Store} (hs : I s)
    (events : List Event) : I (s.runEvents events) := by
  induction events generalizing s with
  | nil => exact hs
  | cons e events ih => exact ih (hstep s e hs)

variable {s : Store} {now : Time} {id : Str} {j : JobRecord}

theorem createUnread_cases (s : Store) (now : Time) (freshID : Str) (a : CreateArgs) :
    s.createUnread now freshID a = s ∨ ∃ job jobs e, s.jobs.insert job = some jobs ∧
      job.state = .queued ∧ job.completedAt = none ∧
      e.jobID = job.id ∧ e.fromState = none ∧ e.toState = .queued ∧
      s.createUnread now freshID a = { s with jobs := jobs }.recordAudit e := by
  unfold createUnread
  cases a.grant with
  | none => exact .inl rfl
  | some g =>
    dsimp only
    split
    · exact .inl rfl
    split
    · exact .inl rfl
    split
    · exact .inl rfl
    · rename_i jobs hins
      exact .inr ⟨_, jobs, _, hins, rfl, rfl, rfl, rfl, rfl, rfl⟩

theorem offerItemsFaulty_loop (fails : Str → Bool) (now expiry : Time) (leases : ℕ → Str)
    (items : List JobRecord) (drawn bytes : ℕ) (offers : List JobOffer) (s : Store) :
    OfferLoop now expiry items s
      (offerItemsFaulty fails now expiry leases items drawn bytes offers s).2 := by
  induction items generalizing drawn bytes offers s with
  | nil => exact .stop
  | cons it items ih =>
    rw [offerItemsFaulty]
    split
    · rename_i htaken
      split
      · exact .skip (ih ..)
      · exact .neverTaken htaken.1 htaken.2 (ih ..)
    split
    · exact .stop
    split
    · exact .skip (ih ..)
    split
    · exact .skip (ih ..)
    · exact .lease (leases drawn) (ih ..)

end Store

end Ominull.Response
