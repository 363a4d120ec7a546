import Ominull.Lib.Table
import Ominull.Go.Unmarshal

namespace Ominull.Response

open Go

/-- Hub times are nanoseconds since the epoch. -/
abbrev Time := Int

def second : Time := 1000000000

def unix (t : Time) : Int := t / second

inductive JobState where
  | queued
  | offered
  | acknowledged
  | running
  | succeeded
  | failed
  | cancelRequested
  | cancelled
  deriving DecidableEq, Repr

namespace JobState

def text : JobState → Str
  | queued => str "queued"
  | offered => str "offered"
  | acknowledged => str "acknowledged"
  | running => str "running"
  | succeeded => str "succeeded"
  | failed => str "failed"
  | cancelRequested => str "cancel_requested"
  | cancelled => str "cancelled"

def terminal : JobState → Bool
  | succeeded | failed | cancelled => true
  | _ => false

end JobState

/-- An action kind is open text; these are the ones the job routes know. -/
abbrev ActionKind := Str

def actionKindForensicCollect : ActionKind := str "forensic_collection"
def actionKindScriptExec : ActionKind := str "script_exec"
def actionKindTerminalSession : ActionKind := str "terminal_session"
def actionKindScreenSession : ActionKind := str "screen_session"

def grantVersion : Int := 2

def grantVersionJob : Int := 3

/-- A signed authorization for one action on one endpoint. -/
structure EndpointGrant where
  version : Int := 0
  grantID : Str := []
  tenantID : Str := []
  endpointID : Str := []
  actionKind : ActionKind := []
  actionDigest : Str := []
  operatorID : Str := []
  responseSessionID : Str := []
  issuedAt : Int := 0
  expiresAt : Int := 0
  nonce : Str := []
  jobID : Str := []
  signerKeyID : Str := []
  signature : Str := []
  deriving DecidableEq

namespace EndpointGrant

def marshal (g : EndpointGrant) : Str :=
  marshalStruct
    [some (str "version", decimalInt g.version), some (str "grant_id", quote g.grantID),
     some (str "tenant_id", quote g.tenantID), some (str "endpoint_id", quote g.endpointID),
     some (str "action_kind", quote g.actionKind), some (str "action_digest", quote g.actionDigest),
     some (str "operator_id", quote g.operatorID),
     some (str "response_session_id", quote g.responseSessionID),
     some (str "issued_at", decimalInt g.issuedAt), some (str "expires_at", decimalInt g.expiresAt),
     some (str "nonce", quote g.nonce),
     if g.jobID = [] then none else some (str "job_id", quote g.jobID),
     some (str "signer_key_id", quote g.signerKeyID), some (str "signature", quote g.signature)]

def fields : List (Go.Field EndpointGrant) :=
  [⟨ascii "version", fun v g => (decodeInt v g.version).map fun x => { g with version := x }⟩,
   ⟨ascii "grant_id", fun v g => (decodeString v g.grantID).map fun x => { g with grantID := x }⟩,
   ⟨ascii "tenant_id", fun v g => (decodeString v g.tenantID).map fun x => { g with tenantID := x }⟩,
   ⟨ascii "endpoint_id", fun v g =>
      (decodeString v g.endpointID).map fun x => { g with endpointID := x }⟩,
   ⟨ascii "action_kind", fun v g =>
      (decodeString v g.actionKind).map fun x => { g with actionKind := x }⟩,
   ⟨ascii "action_digest", fun v g =>
      (decodeString v g.actionDigest).map fun x => { g with actionDigest := x }⟩,
   ⟨ascii "operator_id", fun v g =>
      (decodeString v g.operatorID).map fun x => { g with operatorID := x }⟩,
   ⟨ascii "response_session_id", fun v g =>
      (decodeString v g.responseSessionID).map fun x => { g with responseSessionID := x }⟩,
   ⟨ascii "issued_at", fun v g => (decodeInt v g.issuedAt).map fun x => { g with issuedAt := x }⟩,
   ⟨ascii "expires_at", fun v g => (decodeInt v g.expiresAt).map fun x => { g with expiresAt := x }⟩,
   ⟨ascii "nonce", fun v g => (decodeString v g.nonce).map fun x => { g with nonce := x }⟩,
   ⟨ascii "job_id", fun v g => (decodeString v g.jobID).map fun x => { g with jobID := x }⟩,
   ⟨ascii "signer_key_id", fun v g =>
      (decodeString v g.signerKeyID).map fun x => { g with signerKeyID := x }⟩,
   ⟨ascii "signature", fun v g => (decodeString v g.signature).map fun x => { g with signature := x }⟩]

end EndpointGrant

structure JobRequest where
  grant : EndpointGrant := {}
  payload : Str := []
  deriving DecidableEq

namespace JobRequest

/-- The request column: grant and payload text in one object. -/
def wrap (r : JobRequest) : Str :=
  marshalStruct [some (str "grant", r.grant.marshal), some (str "payload", quote r.payload)]

def fields : List (Go.Field JobRequest) :=
  [⟨ascii "grant", fun v r =>
      (decodeStruct EndpointGrant.fields v r.grant).map fun x => { r with grant := x }⟩,
   ⟨ascii "payload", fun v r => (decodeString v r.payload).map fun x => { r with payload := x }⟩]

/-- What an offer reads back from the request column. -/
def unwrap (s : Str) : Option JobRequest := do
  let v ← parse s
  decodeStruct fields v {}

end JobRequest

/-- A job offered to an endpoint in a heartbeat answer. -/
structure JobOffer where
  jobID : Str
  kind : ActionKind
  leaseID : Str
  leaseExpiresAt : Int
  grant : EndpointGrant
  payloadJSON : Str
  deriving DecidableEq

structure JobProgress where
  progressPct : Int
  message : Str

/-- The outcome an endpoint reports; its state is whatever text it sent. -/
structure JobResult where
  jobID : Str := []
  leaseID : Str := []
  state : Str := []
  errorCode : Str := []
  resultJSON : Str := []
  stdout : Str := []
  stderr : Str := []
  exitCode : Int := 0
  durationMs : Int := 0
  manifestSHA256 : Str := []
  truncated : Bool := false

/-- A string member left out when empty. -/
def omitEmpty (name : String) (s : Str) : Option (Str × Str) :=
  if s = [] then none else some (str name, quote s)

def JobResult.marshal (r : JobResult) : Str :=
  marshalStruct
    [some (str "job_id", quote r.jobID), some (str "lease_id", quote r.leaseID),
     some (str "state", quote r.state), omitEmpty "error_code" r.errorCode,
     omitEmpty "result_json" r.resultJSON, omitEmpty "stdout" r.stdout, omitEmpty "stderr" r.stderr,
     some (str "exit_code", decimalInt r.exitCode),
     some (str "duration_ms", decimalInt r.durationMs),
     omitEmpty "manifest_sha256" r.manifestSHA256,
     if r.truncated then some (str "truncated", str "true") else none]

/-- A row of `response_jobs`; `none` is SQL's NULL. -/
structure JobRecord where
  id : Str
  tenantID : Str
  endpointID : Str
  kind : ActionKind
  requestedBy : Str
  requestedAt : Time
  state : JobState
  leaseID : Option Str
  leaseExpiresAt : Option Time
  startedAt : Option Time
  completedAt : Option Time
  cancelRequestedAt : Option Time
  attempt : ℕ
  idempotencyKey : Str
  authorizationGrantID : Str
  requestJSON : Str
  resultJSON : Option Str
  errorCode : Option Str
  createdAt : Time
  updatedAt : Time
  deriving DecidableEq

structure SupervisedWindow where
  title : Str
  process : Str
  pid : Int
  session : Int
  deriving DecidableEq

structure JobHeartbeat where
  jobID : Str
  leaseID : Str
  phase : Str
  progressPct : Option Int := none
  message : Str := []
  cpuMs : Int := 0
  ioBytes : Int := 0
  idleSeconds : Int := 0
  processes : Int := 0
  window : Option SupervisedWindow := none

/-- A row of `response_job_progress`: the latest heartbeat of a job. The body column's JSON is kept
as the record it decodes to. -/
structure JobSupervision where
  jobID : Str
  tenantID : Str
  endpointID : Str
  phase : Str
  phaseSince : Time
  heartbeatAt : Time
  heartbeats : ℕ
  progressPct : Int
  message : Str
  cpuMs : Int
  ioBytes : Int
  idleSeconds : Int
  processes : Int
  window : Option SupervisedWindow

/-- What an audit entry's text says, with the values it is filled with. -/
inductive AuditDetail where
  | created
  | leased (leaseID : Str) (attempt : ℕ)
  | neverTaken (offers : ℕ)
  | accepted
  | rejected (reason : Str)
  | progress (pct : Int) (message : Str)
  | completed (state : JobState) (exitCode : Int)
  | cancellationRequested
  | supervised (phase : Str)
  | phaseChanged (prior phase : Str) (window : Option SupervisedWindow)
  | sessionEnded (detail : Str)

/-- An entry of `response_job_audit`; a creation has no state before it. -/
structure JobAuditEntry where
  timestamp : Time
  tenantID : Str
  endpointID : Str
  jobID : Str
  grantID : Str
  fromState : Option JobState
  toState : JobState
  actor : Str
  details : AuditDetail

structure Store where
  jobs : Lib.Table JobRecord.id
  progress : Lib.Table JobSupervision.jobID
  audit : List JobAuditEntry

def Store.empty : Store := ⟨.empty, .empty, []⟩

inductive StoreError where
  | missingFields
  | badReservedID
  | constraint
  | scanNull
  | jobNotFound
  | tenantMismatch
  | endpointMismatch
  | leaseMismatch
  | leaseExpired
  | invalidTransition (source target : JobState)
  | nilProgress
  | nilResult
  | heartbeatIncomplete
  | unknownPhase (phase : Str)
  | jobNotRunning
  | notSessionJob
  deriving DecidableEq

end Ominull.Response
