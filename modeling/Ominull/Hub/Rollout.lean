import Ominull.Hub.Grants
import Ominull.Response.Types

/-!
Staged agent rollouts: the tables they use, the check of the canaries, and the queueing of updates.
-/

namespace Ominull.Hub

open Lib Go Response

/-! ## Versions and endpoints -/

/-- The number at the front of a version component, as `strconv.Atoi` reads it. -/
def versionNumber (field : Str) : ℕ := min (digitsValue ((trimSpace field).takeWhile isDigit)) (2 ^ 63 - 1)

def versionParts (v : Str) : ℕ × ℕ × ℕ :=
  let v := trimSpace v
  let fields := (if v.head? = some 0x76 then v.drop 1 else v).splitOn 0x2e
  (versionNumber (fields.getD 0 []), versionNumber (fields.getD 1 []), versionNumber (fields.getD 2 []))

def compareVersions (a b : Str) : Ordering :=
  let a := versionParts a
  let b := versionParts b
  (compare a.1 b.1).then ((compare a.2.1 b.2.1).then (compare a.2.2 b.2.2))

structure Endpoint where
  id : Str
  status : Str := []
  driverVersion : Str := []
  updateCapability : Str := []
  provenanceStatus : Str := []
  installType : Str := []
  packageIdentifier : Str := []
  registeredPackageVersion : Str := []
  lastSeenAt : Time := 0
  deriving DecidableEq

def Endpoint.retired (ep : Endpoint) : Bool := ep.status = str "retired"

/-- `nativePackageForCapability`: the install type and the package identifier. -/
def nativePackageForCapability (capability : Str) : Option (Str × Str) :=
  let capability := toLower (trimSpace capability)
  if capability = str "deb" then some (str "deb", str "ominull-agent")
  else if capability = str "msi" then some (str "msi", str "OminullAgent")
  else none

/-- Why an endpoint does not count as a native installation of a version. -/
inductive ProvenanceIssue where
  | outdated
  | noCapability
  | status (status : Str)
  | installType (got want : Str)
  | packageIdentifier (got want : Str)
  | registeredVersion (got binary : Str)
  deriving DecidableEq

def provenanceIssue (ep : Endpoint) (version : Str) : Option ProvenanceIssue :=
  if compareVersions ep.driverVersion version = .lt then some .outdated
  else
    match nativePackageForCapability ep.updateCapability with
    | none => some .noCapability
    | some (installType, identifier) =>
      let status := trimSpace ep.provenanceStatus
      if status ≠ str "native" then some (.status (if status = [] then str "unknown" else status))
      else if ep.installType ≠ installType then some (.installType ep.installType installType)
      else if ep.packageIdentifier ≠ identifier then
        some (.packageIdentifier ep.packageIdentifier identifier)
      else if compareVersions ep.registeredPackageVersion ep.driverVersion ≠ .eq then
        some (.registeredVersion ep.registeredPackageVersion ep.driverVersion)
      else none

/-! ## The store -/

inductive RolloutState where
  | canary
  | released
  | halted
  | superseded
  deriving DecidableEq

structure AgentRollout where
  id : Str
  version : Str
  allFleet : Bool
  canary : List Str
  held : List Str
  heldGrants : List Str
  deadline : Time
  state : RolloutState := .canary
  deriving DecidableEq

structure AgentUpdateJob where
  endpointID : Str
  desiredVersion : Str
  completed : Bool := false
  deriving DecidableEq

abbrev RolloutTable := Table AgentRollout.id

abbrev JobTable := Table AgentUpdateJob.endpointID

structure HubStore where
  endpoints : List Endpoint
  jobs : JobTable
  grants : GrantTable
  rollouts : RolloutTable

namespace RolloutTable

/-- `supersedeRollouts`: the rollouts that were waiting, and the table in which none is. -/
def supersede (T : RolloutTable) : List AgentRollout × RolloutTable :=
  (T.rows.filter fun r => r.state = .canary,
    T.modify (fun r => if r.state = .canary then { r with state := .superseded } else r)
      fun r => by split <;> rfl)

/-- `FinishAgentRollout`: whether the rollout was still waiting, and the table afterwards. -/
def finish (T : RolloutTable) (id : Str) (state : RolloutState) : Bool × RolloutTable :=
  (T.rows.any fun r => r.id = id && r.state = .canary,
    T.modify (fun r => if r.id = id ∧ r.state = .canary then { r with state := state } else r)
      fun r => by split <;> rfl)

/-- `AgentRollouts` for those that wait on their canaries, newest first. -/
def active (T : RolloutTable) (limit : ℕ) : List AgentRollout :=
  (T.rows.filter fun r => r.state = .canary).reverse.take limit

def heldGrants (T : RolloutTable) : List Str := (T.active 100).flatMap (·.heldGrants)

end RolloutTable

namespace HubStore

def requestAgentUpdate (st : HubStore) (endpointID version : Str) : HubStore :=
  { st with jobs := st.jobs.upsert ⟨endpointID, version, false⟩ }

def cancelAgentUpdates (st : HubStore) (version : Str) : HubStore :=
  { st with jobs := st.jobs.filter fun j => !(j.desiredVersion = version && !j.completed) }

end HubStore

/-! ## Queueing updates -/

/-- Which endpoints an update is for: the selected ones, limited to those granted where an approval
limits the request. -/
structure Want where
  all : Bool
  ids : List Str
  granted : Option (List Str)
  deriving DecidableEq

def Want.selects (w : Want) (ep : Endpoint) : Bool :=
  (match w.granted with | none => true | some ids => decide (ep.id ∈ ids)) && (w.all || decide (ep.id ∈ w.ids))

section Plan

-- whether the hub has a signed package of the version for what the endpoint can install
variable (installable : Str → Endpoint → Bool)

/-- The selected endpoints below the version, before it is asked whether they can install it. -/
def outdated (version : Str) (w : Want) (eps : List Endpoint) : List Endpoint :=
  eps.filter fun ep => w.selects ep && !ep.retired && compareVersions ep.driverVersion version = .lt

/-- Where `scheduleAgentUpdates` stands: before `ListEndpoints`, between the reads of the queued
jobs, or between the writes. -/
inductive Schedule where
  | list (w : Want)
  | consider (todo ready : List Endpoint)
  | queue (ready : List Endpoint)
  deriving DecidableEq

def Schedule.considering : List Endpoint → List Endpoint → Schedule
  | [], ready => .queue ready
  | todo, ready => .consider todo ready

def newerQueued (st : HubStore) (ep : Endpoint) (version : Str) : Bool :=
  match st.jobs.find ep.id with
  | none => false
  | some job => !job.completed && compareVersions job.desiredVersion version = .gt

/-- One store operation of `scheduleAgentUpdates`: where it stands then, the store, and the endpoint
that was queued. -/
def Schedule.step (st : HubStore) (version : Str) : Schedule → Schedule × HubStore × Option Str
  | .list w => (considering ((outdated version w st.endpoints).filter (installable version)) [], st, none)
  | .consider [] ready => (.queue ready, st, none)
  | .consider (ep :: todo) ready =>
    (considering todo (if newerQueued st ep version then ready else ready ++ [ep]), st, none)
  | .queue [] => (.queue [], st, none)
  | .queue (ep :: ready) => (.queue ready, st.requestAgentUpdate ep.id version, some ep.id)

end Plan

/-! ## The check of the canaries -/

def minute : Time := 60 * second

def rolloutOnlineWithin : Time := 2 * minute

def rolloutProvenanceGrace : Time := 3 * minute

inductive Verdict where
  | healthy
  | waiting
  | problem
  deriving DecidableEq

/-- `provenanceIssueSince`: how long a canary has been unclean. -/
def uncleanFor (unclean : List (Str × Time)) (key : Str) (now : Time) : Time × List (Str × Time) :=
  match unclean.find? fun u => u.1 = key with
  | none => (0, (key, now) :: unclean)
  | some u => (now - u.2, unclean)

/-- What `canaryHealth` makes of one canary, and what it remembers of unclean ones. -/
def canaryVerdict (unclean : List (Str × Time)) (ro : AgentRollout) (now : Time) (id : Str) :
    Option Endpoint → Verdict × List (Str × Time)
  | none => (.problem, unclean)
  | some ep =>
    let key := ro.id ++ str "/" ++ id
    if ep.retired then (.problem, unclean)
    else
      match compareVersions ep.driverVersion ro.version with
      | .lt => (.waiting, unclean)
      | .gt => (.problem, unclean)
      | .eq =>
        if (provenanceIssue ep ro.version).isSome then
          let (age, unclean) := uncleanFor unclean key now
          (if age < rolloutProvenanceGrace then .waiting else .problem, unclean)
        else
          let unclean := unclean.filter fun u => u.1 ≠ key
          (if rolloutOnlineWithin < now - ep.lastSeenAt then .waiting else .healthy, unclean)

/-- A canary that is online, clean and on the version. -/
structure Healthy (ep : Endpoint) (version : Str) (now : Time) : Prop where
  present : ep.retired = false
  running : compareVersions ep.driverVersion version = .eq
  clean : provenanceIssue ep version = none
  online : now - ep.lastSeenAt ≤ rolloutOnlineWithin

theorem healthy_of_verdict {unclean : List (Str × Time)} {ro : AgentRollout} {now : Time} {id : Str}
    {found : Option Endpoint} (h : (canaryVerdict unclean ro now id found).1 = .healthy) :
    ∃ ep, found = some ep ∧ Healthy ep ro.version now := by
  cases found with
  | none => cases h
  | some ep =>
    refine ⟨ep, rfl, ?_⟩
    unfold canaryVerdict at h
    dsimp only at h
    split at h
    · cases h
    · rename_i hretired
      split at h
      · cases h
      · cases h
      · rename_i hversion
        split at h
        · split at h <;> cases h
        · rename_i hclean
          split at h
          · cases h
          · rename_i honline
            exact ⟨Bool.not_eq_true _ ▸ hretired, hversion, Option.not_isSome_iff_eq_none.mp hclean,
              not_lt.mp honline⟩

end Ominull.Hub
