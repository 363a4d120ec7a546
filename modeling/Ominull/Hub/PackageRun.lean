import Ominull.Lib.Framing
import Ominull.Response.Store

/-! What one package job amounts to, derived from its row when it is read. -/

namespace Ominull.Hub

open Lib Go Response

/-- The state of a package run: what its result line says, or how far its job is. -/
inductive RunState where
  | ok
  | fixed
  | drift
  | failed
  | skipped
  | na
  | running
  | waiting
  | cancelled
  | noResult
  | notRun
  deriving DecidableEq

/-- `packageStates`: the states a result line may name. -/
def packageState (s : Str) : Option RunState :=
  if s = str "ok" then some .ok
  else if s = str "fixed" then some .fixed
  else if s = str "drift" then some .drift
  else if s = str "failed" then some .failed
  else if s = str "skipped" then some .skipped
  else if s = str "na" then some .na
  else none

structure PackageResult where
  v : Int := 0
  state : Str := []
  reboot : Bool := false
  changed : List Str := []
  detail : Option Json := none

def PackageResult.fields : List (Go.Field PackageResult) :=
  [⟨ascii "v", fun v r => (decodeInt v r.v).map fun x => { r with v := x }⟩,
   ⟨ascii "state", fun v r => (decodeString v r.state).map fun x => { r with state := x }⟩,
   ⟨ascii "reboot", fun v r => (decodeBool v r.reboot).map fun x => { r with reboot := x }⟩,
   ⟨ascii "changed", fun v r => (decodeSlice decodeString [] v r.changed).map fun x => { r with changed := x }⟩,
   ⟨ascii "detail", fun v r => some { r with detail := some v }⟩]

def lastOutputLine (stdout : Str) : Str :=
  trimSpace (((stdout.rdropWhile fun b => b ∈ str "\r\n\t ").splitOn 0x0a).getLastD [])

def parsePackageResult (stdout : Str) : Option (PackageResult × RunState) :=
  if (lastOutputLine stdout).head? ≠ some 0x7b then none
  else do
    let v ← parse (lastOutputLine stdout)
    let r ← decodeStruct PackageResult.fields v {}
    if r.v ≠ 1 then none else (packageState r.state).map fun state => (r, state)

structure ResultDetail where
  reason : Str := []
  error : Str := []
  restartIn : Int := 0

def ResultDetail.fields : List (Go.Field ResultDetail) :=
  [⟨ascii "Reason", fun v d => (decodeString v d.reason).map fun x => { d with reason := x }⟩,
   ⟨ascii "Error", fun v d => (decodeString v d.error).map fun x => { d with error := x }⟩,
   ⟨ascii "restart_in_seconds", fun v d => (decodeInt v d.restartIn).map fun x => { d with restartIn := x }⟩,
   ⟨ascii "needs_owner", fun _ d => some d⟩]

/-- The warning time of a restart package; a detail that does not decode has none. -/
def PackageResult.restartIn (r : PackageResult) : Int :=
  ((r.detail.bind fun v => decodeStruct ResultDetail.fields v {}).map ResultDetail.restartIn).getD 0

def jobResultFields : List (Go.Field JobResult) :=
  [⟨ascii "job_id", fun v r => (decodeString v r.jobID).map fun x => { r with jobID := x }⟩,
   ⟨ascii "lease_id", fun v r => (decodeString v r.leaseID).map fun x => { r with leaseID := x }⟩,
   ⟨ascii "state", fun v r => (decodeString v r.state).map fun x => { r with state := x }⟩,
   ⟨ascii "error_code", fun v r => (decodeString v r.errorCode).map fun x => { r with errorCode := x }⟩,
   ⟨ascii "result_json", fun v r => (decodeString v r.resultJSON).map fun x => { r with resultJSON := x }⟩,
   ⟨ascii "stdout", fun v r => (decodeString v r.stdout).map fun x => { r with stdout := x }⟩,
   ⟨ascii "stderr", fun v r => (decodeString v r.stderr).map fun x => { r with stderr := x }⟩,
   ⟨ascii "exit_code", fun v r => (decodeInt v r.exitCode).map fun x => { r with exitCode := x }⟩,
   ⟨ascii "duration_ms", fun v r => (decodeInt v r.durationMs).map fun x => { r with durationMs := x }⟩,
   ⟨ascii "manifest_sha256", fun v r => (decodeString v r.manifestSHA256).map fun x => { r with manifestSHA256 := x }⟩,
   ⟨ascii "truncated", fun v r => (decodeBool v r.truncated).map fun x => { r with truncated := x }⟩]

structure ScriptExecPayload where
  scriptID : Str := []
  scriptVersion : Int := 0
  scriptDigest : Str := []
  interpreter : Str := []
  source : Str := []
  parameters : List (List Char × Str) := []
  timeoutSeconds : Int := 0
  maxOutputBytes : Int := 0

def ScriptExecPayload.fields : List (Go.Field ScriptExecPayload) :=
  [⟨ascii "script_id", fun v p => (decodeString v p.scriptID).map fun x => { p with scriptID := x }⟩,
   ⟨ascii "script_version", fun v p => (decodeInt v p.scriptVersion).map fun x => { p with scriptVersion := x }⟩,
   ⟨ascii "script_digest", fun v p => (decodeString v p.scriptDigest).map fun x => { p with scriptDigest := x }⟩,
   ⟨ascii "interpreter", fun v p => (decodeString v p.interpreter).map fun x => { p with interpreter := x }⟩,
   ⟨ascii "source", fun v p => (decodeString v p.source).map fun x => { p with source := x }⟩,
   ⟨ascii "parameters", fun v p => (decodeMap decodeString [] v p.parameters).map fun x => { p with parameters := x }⟩,
   ⟨ascii "timeout_seconds", fun v p => (decodeInt v p.timeoutSeconds).map fun x => { p with timeoutSeconds := x }⟩,
   ⟨ascii "max_output_bytes", fun v p => (decodeInt v p.maxOutputBytes).map fun x => { p with maxOutputBytes := x }⟩]

/-- `scriptJobPayload`: the payload out of a job's request, if it names a script. -/
def scriptJobPayload (job : JobRecord) : Option ScriptExecPayload := do
  let v ← parse job.requestJSON
  let payload ← decodeStruct [⟨ascii "payload", fun v s => decodeString v s⟩] v []
  let w ← parse payload
  let p ← decodeStruct ScriptExecPayload.fields w {}
  if p.scriptID = [] then none else some p

def defaultTimeoutSeconds : Int := 60

def packageRunGrace : Time := 10 * 60 * second

/-- A number of seconds as a `time.Duration`. -/
def seconds (n : Int) : Time := wrap64 (n * second)

/-- `time.Time.Sub`, which stops at the ends of a duration. -/
def timeSub (t u : Time) : Time := max (-2 ^ 63) (min (2 ^ 63 - 1) (t - u))

def timeLimit (job : JobRecord) : Time :=
  wrap64 (seconds (((scriptJobPayload job).map (·.timeoutSeconds)).getD defaultTimeoutSeconds) + packageRunGrace)

/-- The parts of `packageRun` that a playbook reads. -/
structure PackageRun where
  state : RunState
  completedAt : Option Time
  restartIn : Int := 0

def oneOffPrefix : Str := str "adhoc-"

/-- What a job that has ended amounts to. -/
def finishedRun (job : JobRecord) : PackageRun :=
  match (parse (job.resultJSON.getD [])).bind fun v => decodeStruct jobResultFields v {} with
  | none => { state := .failed, completedAt := job.completedAt }
  | some res =>
    if ((scriptJobPayload job).map fun p => oneOffPrefix.isPrefixOf p.scriptID).getD false then
      -- A one-off script has no result line: its exit code says.
      { state := if job.state = .succeeded then .ok else .failed, completedAt := job.completedAt }
    else
      match parsePackageResult res.stdout with
      | none => { state := .failed, completedAt := job.completedAt }
      | some (r, state) => { state, completedAt := job.completedAt, restartIn := r.restartIn }

def derivePackageRun (job : JobRecord) (now : Time) : PackageRun :=
  match job.state with
  | .queued | .offered => { state := .waiting, completedAt := job.completedAt }
  | .acknowledged | .running | .cancelRequested =>
    { state := if timeLimit job < timeSub now (job.startedAt.getD job.requestedAt) then .noResult else .running
      completedAt := job.completedAt }
  | .cancelled => { state := .cancelled, completedAt := job.completedAt }
  | .succeeded | .failed => finishedRun job

/-- A job is over: it has ended, it has been quiet past its time limit, or it was never taken and the window of
its run, with the grace, has passed. -/
def JobEnded (job : JobRecord) (now deadline : Time) : Prop :=
  match job.state with
  | .queued | .offered => deadline + packageRunGrace ≤ now
  | .acknowledged | .running | .cancelRequested => timeLimit job < timeSub now (job.startedAt.getD job.requestedAt)
  | .cancelled | .succeeded | .failed => True

theorem packageState_ne {s : Str} {state : RunState} (h : packageState s = some state) :
    state ≠ .running ∧ state ≠ .waiting := by
  unfold packageState at h
  split_ifs at h <;> cases h <;> decide

theorem parsePackageResult_state {stdout : Str} {r : PackageResult} {state : RunState}
    (h : parsePackageResult stdout = some (r, state)) : state ≠ .running ∧ state ≠ .waiting := by
  unfold parsePackageResult at h
  split_ifs at h
  obtain ⟨v, -, h⟩ := Option.bind_eq_some_iff.mp h
  obtain ⟨r', -, h⟩ := Option.bind_eq_some_iff.mp h
  split_ifs at h
  obtain ⟨state', hstate, heq⟩ := Option.map_eq_some_iff.mp h
  cases heq
  exact packageState_ne hstate

theorem finishedRun_state (job : JobRecord) : (finishedRun job).state ≠ .running ∧ (finishedRun job).state ≠ .waiting := by
  unfold finishedRun
  split
  · simp
  · split
    · cases job.state <;> simp
    · split
      · simp
      · rename_i hparse
        exact parsePackageResult_state hparse

theorem waits_iff (job : JobRecord) (now deadline : Time) :
    ((derivePackageRun job now).state = .running ∨
      ((derivePackageRun job now).state = .waiting ∧ now < deadline + packageRunGrace)) ↔
    ¬JobEnded job now deadline := by
  unfold derivePackageRun JobEnded
  cases job.state with
  | queued | offered | cancelled => simp
  | acknowledged | running | cancelRequested =>
    by_cases h : timeLimit job < timeSub now (job.startedAt.getD job.requestedAt) <;> simp [h]
  | succeeded | failed => simp [finishedRun_state job]

end Ominull.Hub
