import Ominull.Response.Supervision
import Mathlib.Data.List.Sort

/-!
The hub's response job store. Every operation runs under the store's lock on one SQLite connection,
so it is one atomic step from a store to a result and a store; random identifiers and the clock are
arguments.
-/

namespace Ominull.Response

open Go

/-- Whether a job may move between two states; staying put is idempotent. -/
def isValidTransition (source target : JobState) : Bool :=
  if source = target then true
  else
    match source with
    | .queued => target = .offered || target = .cancelled
    | .offered => target = .acknowledged || target = .failed || target = .queued ||
        target = .cancelled
    | .acknowledged => target = .running || target = .succeeded || target = .failed ||
        target = .cancelRequested || target = .cancelled
    | .running => target = .succeeded || target = .failed || target = .cancelRequested ||
        target = .cancelled
    | .cancelRequested => target = .cancelled || target = .succeeded || target = .failed
    | .succeeded | .failed | .cancelled => false

/-- A check that refuses with an error when `p` holds. -/
def refuse (p : Prop) [Decidable p] (e : StoreError) : Option StoreError := if p then some e else none

@[simp] theorem refuse_eq_none {p : Prop} [Decidable p] {e : StoreError} : refuse p e = none ↔ ¬p := by
  unfold refuse
  split_ifs with h <;> simp [h]

/-- The tenant and endpoint binding of a request; an empty argument is not checked. -/
def JobRecord.refuseBinding (j : JobRecord) (tenantID endpointID : Str) : Option StoreError :=
  (refuse (tenantID ≠ [] ∧ j.tenantID ≠ tenantID) .tenantMismatch).or
    (refuse (endpointID ≠ [] ∧ j.endpointID ≠ endpointID) .endpointMismatch)

/-- `now.After` the lease's expiry, where it has one. -/
def JobRecord.leaseLapsed (j : JobRecord) (now : Time) : Prop := ∃ e ∈ j.leaseExpiresAt, e < now

instance (j : JobRecord) (now : Time) : Decidable (j.leaseLapsed now) :=
  inferInstanceAs (Decidable (∃ e ∈ j.leaseExpiresAt, e < now))

def JobRecord.refuseNull (j : JobRecord) : Option StoreError := refuse (j.leaseID = none) .scanNull

def JobRecord.refuseLease (j : JobRecord) (leaseID : Str) : Option StoreError :=
  refuse (j.leaseID ≠ some leaseID) .leaseMismatch

def JobRecord.refuseLapsed (j : JobRecord) (now : Time) : Option StoreError :=
  refuse (j.leaseLapsed now) .leaseExpired

def JobRecord.refuseTransition (j : JobRecord) (target : JobState) : Option StoreError :=
  refuse (¬isValidTransition j.state target) (.invalidTransition j.state target)

/-! ## What the `UPDATE` statements write -/

/-- The error code of a job its endpoint never took. -/
def errNeverTaken : Str :=
  str "offered 30 times and never taken by the agent " ++
    str "(its reply buffer may be too small for this job; update the agent)"

def ackTarget (accepted : Bool) : JobState := if accepted then .acknowledged else .failed

/-- The terminal state a reported outcome stands for. -/
def JobResult.target (r : JobResult) : JobState :=
  if r.state = JobState.succeeded.text then .succeeded
  else if r.state = JobState.failed.text then .failed
  else if r.state = JobState.cancelled.text then .cancelled
  else if r.exitCode ≠ 0 ∨ r.errorCode ≠ [] then .failed
  else .succeeded

namespace JobRecord

def progressTarget (j : JobRecord) : JobState :=
  if j.state = .acknowledged then .running else j.state

/-- A job no agent has taken is withdrawn outright; a taken one can only be asked to stop. -/
def cancelTarget (j : JobRecord) : JobState :=
  if j.state = .queued ∨ j.state = .offered then .cancelled else .cancelRequested

def sessionTarget (j : JobRecord) (errorCode : Str) : JobState :=
  if j.state = .queued ∨ j.state = .offered then .cancelled
  else if errorCode ≠ [] then .failed
  else .succeeded

def failNeverTaken (now : Time) (j : JobRecord) : JobRecord :=
  { j with
    state := .failed, errorCode := some errNeverTaken, completedAt := some now, updatedAt := now }

def lease (now expiry : Time) (leaseID : Str) (attempt : ℕ) (j : JobRecord) : JobRecord :=
  { j with
    state := .offered, leaseID := some leaseID, leaseExpiresAt := some expiry, attempt := attempt,
    updatedAt := now }

def accept (now : Time) (j : JobRecord) : JobRecord :=
  { j with state := .acknowledged, startedAt := some now, updatedAt := now }

def reject (now : Time) (reason : Str) (j : JobRecord) : JobRecord :=
  { j with state := .failed, errorCode := some reason, completedAt := some now, updatedAt := now }

def advance (now : Time) (j : JobRecord) : JobRecord :=
  { j with state := j.progressTarget, updatedAt := now }

def complete (now : Time) (r : JobResult) (j : JobRecord) : JobRecord :=
  { j with
    state := r.target, resultJSON := some r.marshal, errorCode := some r.errorCode,
    completedAt := some now, updatedAt := now }

def cancel (now : Time) (j : JobRecord) : JobRecord :=
  { j with state := j.cancelTarget, cancelRequestedAt := some now, updatedAt := now }

def endSession (now : Time) (errorCode detail : Str) (j : JobRecord) : JobRecord :=
  { j with
    state := j.sessionTarget errorCode, completedAt := some now, updatedAt := now,
    resultJSON := some (marshalStruct [some (str "session", quote detail)]),
    errorCode := some errorCode }

def offer (j : JobRecord) (expiry : Time) (leaseID : Str) (r : JobRequest) : JobOffer where
  jobID := j.id
  kind := j.kind
  leaseID := leaseID
  leaseExpiresAt := unix expiry
  grant := r.grant
  payloadJSON := r.payload

end JobRecord

namespace Store

def updateJob (s : Store) (id : Str) (f : JobRecord → JobRecord) (hf : ∀ j, (f j).id = j.id) :
    Store :=
  { s with jobs := s.jobs.update id f hf }

def recordAudit (s : Store) (e : JobAuditEntry) : Store := { s with audit := s.audit ++ [e] }

def auditMove (now : Time) (j : JobRecord) (target : JobState) (actor : Str)
    (details : AuditDetail) : JobAuditEntry where
  timestamp := now
  tenantID := j.tenantID
  endpointID := j.endpointID
  jobID := j.id
  grantID := j.authorizationGrantID
  fromState := some j.state
  toState := target
  actor := actor
  details := details

def endpointActor (j : JobRecord) : Str := str "endpoint:" ++ j.endpointID

end Store

/-- `uuid.Parse` succeeds: the canonical form, that form behind `urn:uuid:` or inside any two
characters, or 32 hex digits. -/
def uuidParses (s : Str) : Bool :=
  if s.length = 32 then s.all fun b => (hexValue b).isSome
  else
    let body :=
      if s.length = 36 then some s
      else if s.length = 45 then
        if (s.take 9).map (fun b => if 0x41 ≤ b ∧ b ≤ 0x5a then b + 32 else b) = str "urn:uuid:" then
          some (s.drop 9)
        else none
      else if s.length = 38 then some (s.drop 1)
      else none
    match body with
    | none => false
    | some b =>
      [8, 13, 18, 23].all (fun i => b.getD i 0 == 0x2d) &&
        [0, 2, 4, 6, 9, 11, 14, 16, 19, 21, 24, 26, 28, 30, 32, 34].all fun i =>
          (hexValue (b.getD i 0)).isSome && (hexValue (b.getD (i + 1) 0)).isSome

structure CreateArgs where
  tenantID : Str
  endpointID : Str
  kind : ActionKind
  requestedBy : Str
  grant : Option EndpointGrant
  payloadJSON : Str
  idempotencyKey : Str

/-- The row `CreateJob` inserts for a grant. -/
def CreateArgs.newJob (a : CreateArgs) (now : Time) (id : Str) (g : EndpointGrant) : JobRecord where
  id := id
  tenantID := a.tenantID
  endpointID := a.endpointID
  kind := a.kind
  requestedBy := a.requestedBy
  requestedAt := now
  state := .queued
  leaseID := none
  leaseExpiresAt := none
  startedAt := none
  completedAt := none
  cancelRequestedAt := none
  attempt := 0
  idempotencyKey := a.idempotencyKey
  authorizationGrantID := g.grantID
  requestJSON := JobRequest.wrap ⟨g, a.payloadJSON⟩
  resultJSON := none
  errorCode := none
  createdAt := now
  updatedAt := now

namespace Store

def findIdempotent (s : Store) (a : CreateArgs) : Option JobRecord :=
  if a.idempotencyKey = [] then none
  else s.jobs.rows.find? fun j =>
    j.tenantID = a.tenantID ∧ j.idempotencyKey = a.idempotencyKey

/-- Creates a queued job; `freshID` is the random id it takes unless its grant names one. -/
def createJob (s : Store) (now : Time) (freshID : Str) (a : CreateArgs) :
    Except StoreError JobRecord × Store :=
  match a.grant with
  | none => (.error .missingFields, s)
  | some g =>
    if a.tenantID = [] ∨ a.endpointID = [] then (.error .missingFields, s)
    else
      match s.findIdempotent a with
      | some j => (.ok j, s)
      | none =>
        if g.version = grantVersionJob ∧ ¬uuidParses g.jobID then (.error .badReservedID, s)
        else
          let job := a.newJob now (if g.version = grantVersionJob then g.jobID else freshID) g
          match s.jobs.insert job with
          | none => (.error .constraint, s)
          | some jobs =>
            (.ok job, { s with jobs := jobs }.recordAudit
              { auditMove now job .queued a.requestedBy .created with fromState := none })

def offerBytesMax : ℕ := 256 * 1024
def offerAttemptsMax : ℕ := 30

/-- A queued job of the endpoint, or an offered one whose lease has lapsed. -/
def offerable (now : Time) (tenantID endpointID : Str) (j : JobRecord) : Bool :=
  j.tenantID = tenantID && j.endpointID = endpointID &&
    (j.state = .queued || (j.state = .offered && decide (j.leaseLapsed now)))

/-- The jobs an offer call looks at: the oldest offerable ones. -/
def pendingJobs (s : Store) (now : Time) (tenantID endpointID : Str) (maxOffers : ℕ) :
    List JobRecord :=
  ((s.jobs.rows.filter (offerable now tenantID endpointID)).insertionSort
    fun a b => a.requestedAt ≤ b.requestedAt).take maxOffers

/-- Fails a job that was offered too often. -/
def failNeverTaken (s : Store) (now : Time) (it : JobRecord) : Store :=
  (s.updateJob it.id (·.failNeverTaken now) fun _ => rfl).recordAudit
    (auditMove now it .failed (str "scheduler") (.neverTaken it.attempt))

def leaseJob (s : Store) (now expiry : Time) (leaseID : Str) (it : JobRecord) : Store :=
  (s.updateJob it.id (·.lease now expiry leaseID (it.attempt + 1)) fun _ => rfl).recordAudit
    (auditMove now it .offered (str "scheduler") (.leased leaseID (it.attempt + 1)))

/-- The loop of `OfferPendingJobs` over the selected rows. `leases` holds the random lease ids,
`drawn` of which are used up; `bytes` is the request bytes packed so far. -/
def offerItems (now expiry : Time) (leases : ℕ → Str) :
    List JobRecord → ℕ → ℕ → List JobOffer → Store → List JobOffer × Store
  | [], _, _, offers, s => (offers, s)
  | it :: items, drawn, bytes, offers, s =>
    if it.state = .offered ∧ offerAttemptsMax ≤ it.attempt then
      offerItems now expiry leases items drawn bytes offers (s.failNeverTaken now it)
    else if offers ≠ [] ∧ offerBytesMax < bytes + it.requestJSON.length then (offers, s)
    else
      let bytes := bytes + it.requestJSON.length
      match JobRequest.unwrap it.requestJSON with
      | none => offerItems now expiry leases items (drawn + 1) bytes offers s
      | some r =>
        offerItems now expiry leases items (drawn + 1) bytes
          (offers ++ [it.offer expiry (leases drawn) r])
          (s.leaseJob now expiry (leases drawn) it)

def offerPendingJobs (s : Store) (now : Time) (leases : ℕ → Str) (tenantID endpointID : Str)
    (maxOffers : Int) (leaseDuration : Time) : List JobOffer × Store :=
  let maxOffers := if maxOffers ≤ 0 ∨ 10 < maxOffers then 4 else maxOffers.toNat
  let leaseDuration := if leaseDuration ≤ 0 then 120 * second else leaseDuration
  offerItems now (now + leaseDuration) leases
    (s.pendingJobs now tenantID endpointID maxOffers) 0 0 [] s

def refuseAcknowledge (now : Time) (tenantID endpointID leaseID : Str) (accepted : Bool)
    (j : JobRecord) : Option StoreError :=
  j.refuseNull.or <| (j.refuseBinding tenantID endpointID).or <| (j.refuseLease leaseID).or <|
    (j.refuseLapsed now).or (j.refuseTransition (ackTarget accepted))

def acknowledgeJob (s : Store) (now : Time) (tenantID endpointID jobID leaseID : Str)
    (accepted : Bool) (rejectionReason : Str) : Except StoreError Unit × Store :=
  match s.jobs.find jobID with
  | none => (.error .jobNotFound, s)
  | some j =>
    match refuseAcknowledge now tenantID endpointID leaseID accepted j with
    | some e => (.error e, s)
    | none =>
      let s' :=
        if accepted then s.updateJob jobID (·.accept now) fun _ => rfl
        else s.updateJob jobID (·.reject now rejectionReason) fun _ => rfl
      (.ok (), s'.recordAudit (auditMove now j (ackTarget accepted) (endpointActor j)
        (if accepted then .accepted else .rejected rejectionReason)))

def refuseProgress (now : Time) (tenantID endpointID leaseID : Str) (j : JobRecord) :
    Option StoreError :=
  j.refuseNull.or <| (j.refuseBinding tenantID endpointID).or <| (j.refuseLease leaseID).or <|
    j.refuseLapsed now

def recordProgress (s : Store) (now : Time) (tenantID endpointID jobID leaseID : Str)
    (progress : Option JobProgress) : Except StoreError Unit × Store :=
  match progress with
  | none => (.error .nilProgress, s)
  | some p =>
    match s.jobs.find jobID with
    | none => (.error .jobNotFound, s)
    | some j =>
      match refuseProgress now tenantID endpointID leaseID j with
      | some e => (.error e, s)
      | none =>
        (.ok (), (s.updateJob jobID (·.advance now) fun _ => rfl).recordAudit
          (auditMove now j j.progressTarget (endpointActor j) (.progress p.progressPct p.message)))

/-- Records a job's final outcome; a job already ended answers success and stays as it is. -/
def completeJob (s : Store) (now : Time) (tenantID endpointID jobID leaseID : Str)
    (result : Option JobResult) : Except StoreError Unit × Store :=
  match result with
  | none => (.error .nilResult, s)
  | some r =>
    match s.jobs.find jobID with
    | none => (.error .jobNotFound, s)
    | some j =>
      match j.refuseNull.or (j.refuseBinding tenantID endpointID) with
      | some e => (.error e, s)
      | none =>
        if j.state.terminal then (.ok (), s)
        else
          match (j.refuseLease leaseID).or (j.refuseTransition r.target) with
          | some e => (.error e, s)
          | none =>
            (.ok (), (s.updateJob jobID (·.complete now r) fun _ => rfl).recordAudit
              (auditMove now j r.target (endpointActor j) (.completed r.target r.exitCode)))

def cancelJob (s : Store) (now : Time) (tenantID jobID requestedBy : Str) :
    Except StoreError Unit × Store :=
  match s.jobs.find jobID with
  | none => (.error .jobNotFound, s)
  | some j =>
    match refuse (tenantID ≠ [] ∧ j.tenantID ≠ tenantID) .tenantMismatch with
    | some e => (.error e, s)
    | none =>
      if j.state.terminal then (.ok (), s)
      else
        match j.refuseTransition j.cancelTarget with
        | some e => (.error e, s)
        | none =>
          (.ok (), (s.updateJob jobID (·.cancel now) fun _ => rfl).recordAudit
            (auditMove now j j.cancelTarget requestedBy .cancellationRequested))

def recordHeartbeat (s : Store) (now : Time) (tenantID endpointID : Str)
    (heartbeat : Option JobHeartbeat) : Except StoreError HeartbeatOutcome × Store :=
  match heartbeat with
  | none => (.error .heartbeatIncomplete, s)
  | some raw =>
    if raw.jobID = [] ∨ raw.leaseID = [] then (.error .heartbeatIncomplete, s)
    else
      match raw.clean with
      | .error e => (.error e, s)
      | .ok hb =>
        match s.jobs.find hb.jobID with
        | none => (.error .jobNotFound, s)
        | some j =>
          match j.refuseNull.or <| (j.refuseBinding tenantID endpointID).or <|
              (j.refuseLease hb.leaseID).or <|
              refuse (j.state ≠ .acknowledged ∧ j.state ≠ .running ∧ j.state ≠ .cancelRequested)
                .jobNotRunning with
          | some e => (.error e, s)
          | none =>
            let prior := s.progress.find hb.jobID
            let sup := hb.supervise now j prior
            let progress := match s.progress.insert sup with
              | some progress => progress
              | none => s.progress.update hb.jobID (fun p => { sup with jobID := p.jobID }) fun _ => rfl
            let s := { s with progress := progress }
            let s :=
              if j.state = .acknowledged then
                (s.updateJob hb.jobID (·.advance now) fun _ => rfl).recordAudit
                  (auditMove now j .running (endpointActor j) (.supervised hb.phase))
              else
                match prior with
                | some p =>
                  if p.phase ≠ hb.phase then
                    s.recordAudit (auditMove now j j.state (endpointActor j)
                      (.phaseChanged p.phase hb.phase hb.window))
                  else s
                | none => s
            (.ok (heartbeatOutcome j prior sup), s)

def endSessionJob (s : Store) (now : Time) (jobID errorCode detail : Str) :
    Except StoreError Unit × Store :=
  match s.jobs.find jobID with
  | none => (.error .jobNotFound, s)
  | some j =>
    if j.kind ≠ actionKindTerminalSession ∧ j.kind ≠ actionKindScreenSession then
      (.error .notSessionJob, s)
    else
      let target := j.sessionTarget errorCode
      if j.state = target ∨ ¬isValidTransition j.state target then (.ok (), s)
      else
        (.ok (), (s.updateJob jobID (·.endSession now errorCode detail) fun _ => rfl).recordAudit
          (auditMove now j target (str "hub") (.sessionEnded detail)))

end Store

/-- A call of a job-store operation, with the random ids it draws. -/
inductive Op where
  | create (freshID : Str) (args : CreateArgs)
  | offer (leases : ℕ → Str) (tenantID endpointID : Str) (maxOffers : Int) (leaseDuration : Time)
  | acknowledge (tenantID endpointID jobID leaseID : Str) (accepted : Bool) (reason : Str)
  | progress (tenantID endpointID jobID leaseID : Str) (progress : Option JobProgress)
  | heartbeat (tenantID endpointID : Str) (heartbeat : Option JobHeartbeat)
  | complete (tenantID endpointID jobID leaseID : Str) (result : Option JobResult)
  | cancel (tenantID jobID requestedBy : Str)
  | endSession (jobID errorCode detail : Str)

def Store.exec (s : Store) (now : Time) : Op → Store
  | .create freshID a => (s.createJob now freshID a).2
  | .offer leases t e n d => (s.offerPendingJobs now leases t e n d).2
  | .acknowledge t e j l ok r => (s.acknowledgeJob now t e j l ok r).2
  | .progress t e j l p => (s.recordProgress now t e j l p).2
  | .heartbeat t e hb => (s.recordHeartbeat now t e hb).2
  | .complete t e j l r => (s.completeJob now t e j l r).2
  | .cancel t j actor => (s.cancelJob now t j actor).2
  | .endSession j c d => (s.endSessionJob now j c d).2

def Store.run (s : Store) (ops : List (Time × Op)) : Store :=
  ops.foldl (fun s op => s.exec op.1 op.2) s

end Ominull.Response
