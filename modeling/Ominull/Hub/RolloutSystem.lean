import Ominull.Hub.Rollout
import Ominull.Lib.Run

/-!
The advance loop and the requests that stage, supersede or halt rollouts, side by side. Every step is
one store operation of one of them; what each does next is kept with it.
-/

namespace Ominull.Hub

open Lib Go Response Agent

/-- What the advance loop does next, with the rollouts it still has to deal with in this tick. From
the end of the check on, it keeps the canaries as they were read. -/
inductive Tick where
  | idle
  /-- `GetEndpoint` of a canary -/
  | check (now : Time) (ro : AgentRollout) (read : List Endpoint) (id : Str) (todo : List Str)
      (rest : List AgentRollout)
  /-- `scheduleAgentUpdates` for the held endpoints -/
  | schedule (now : Time) (ro : AgentRollout) (read : List Endpoint) (sched : Schedule)
      (rest : List AgentRollout)
  /-- `MarkGrantsDeliverable` -/
  | mark (now : Time) (ro : AgentRollout) (read : List Endpoint) (rest : List AgentRollout)
  /-- `FinishAgentRollout` of a release -/
  | finish (now : Time) (ro : AgentRollout) (rest : List AgentRollout)
  /-- `FinishAgentRollout` of a halt -/
  | halt (now : Time) (ro : AgentRollout) (rest : List AgentRollout)
  /-- `DeleteEnforcementGrants` -/
  | withdraw (now : Time) (ids : List Str) (rest : List AgentRollout)

def AgentRollout.want (ro : AgentRollout) : Want := ⟨true, [], some ro.held⟩

namespace Tick

/-- With every canary found healthy the release begins. -/
def checked (now : Time) (ro : AgentRollout) (read : List Endpoint) (rest : List AgentRollout) :
    List Str → Tick
  | [] => .schedule now ro read (.list ro.want) rest
  | id :: todo => .check now ro read id todo rest

def next (now : Time) : List AgentRollout → Tick
  | [] => .idle
  | ro :: rest => checked now ro [] rest ro.canary

/-- With nothing left to queue the grants are released. -/
def scheduled (now : Time) (ro : AgentRollout) (read : List Endpoint) (rest : List AgentRollout)
    (sched : Schedule) : Tick :=
  if sched = .queue [] then .mark now ro read rest else .schedule now ro read sched rest

def releasing : Tick → Option AgentRollout
  | .schedule _ ro .. | .mark _ ro .. | .finish _ ro _ => some ro
  | _ => none

end Tick

/-! ## Requests -/

inductive RequestPhase where
  /-- `rolloutTargets`, for a request with canaries; the grants are endpoints with grant ids -/
  | targets (all : Bool) (ids canary : List Str) (grants : List (Str × Str))
  /-- `planAgentUpdates` of the canaries -/
  | vet (all : Bool) (canary held heldGrants : List Str)
  /-- `CreateAgentRollout` -/
  | create (all : Bool) (canary held heldGrants : List Str)
  /-- `SupersedeAgentRollouts` -/
  | supersede (w : Want)
  /-- `DeleteEnforcementGrants` of what was superseded -/
  | withdraw (ids : List Str) (w : Want)
  | schedule (sched : Schedule)
  /-- `HeldRolloutGrants`, after the handler succeeded -/
  | settle
  /-- `MarkGrantsDeliverable` -/
  | mark (ids : List Str)
  /-- `DeleteEnforcementGrants`, after the handler refused -/
  | refuse
  /-- `AgentRollouts` of a rollback -/
  | active
  /-- `FinishAgentRollout` of a rollback -/
  | halt (ro : AgentRollout) (todo : List AgentRollout)
  | haltWithdraw (ids : List Str) (todo : List AgentRollout)
  /-- `CancelAgentUpdates` -/
  | cancel
  | done

structure Request where
  id : ℕ
  version : Str
  kept : List Str := []
  staged : Option Str := none
  phase : RequestPhase

def sortedTargets (ids : List Str) : List Str :=
  ((ids.map trimSpace).filter (· ≠ [])).dedup.insertionSort fun a b => a ≤ b

def canaryProblem (canary targets : List Str) : Bool :=
  !canary.all (· ∈ targets) || canary.length = targets.length

def rolloutCanaryDeadline : Time := 30 * minute

namespace RequestPhase

def halting : List AgentRollout → RequestPhase
  | [] => .cancel
  | ro :: todo => .halt ro todo

end RequestPhase

namespace Request

variable (installable : Str → Endpoint → Bool)

def step (st : HubStore) (q : Request) (rolloutID : Str) (now : Time) : Option (HubStore × Request) :=
  match q.phase with
  | .targets all ids canary grants =>
    let targets := if all then sortedTargets ((st.endpoints.filter (!·.retired)).map (·.id))
      else sortedTargets ids
    let targets := if grants = [] then targets else targets.filter (· ∈ grants.map Prod.fst)
    if canaryProblem canary targets then some (st, { q with phase := .refuse })
    else
      let held := targets.filter (· ∉ canary)
      let heldGrants := (grants.filter fun g => g.1 ∈ held).map Prod.snd
      some (st, { q with phase := .vet all canary held heldGrants })
  | .vet all canary held heldGrants =>
    if (outdated q.version ⟨false, canary, none⟩ st.endpoints).all (installable q.version) then
      some (st, { q with phase := .create all canary held heldGrants })
    else some (st, { q with phase := .refuse })
  | .create all canary held heldGrants =>
    let (ended, T) := st.rollouts.supersede
    (T.insert ⟨rolloutID, q.version, all, canary, held, heldGrants,
        (now + rolloutCanaryDeadline) / second * second, .canary⟩).map fun T =>
      ({ st with rollouts := T },
        { q with
          staged := some rolloutID,
          phase := .withdraw (ended.flatMap (·.heldGrants)) ⟨false, canary, none⟩ })
  | .supersede w =>
    let (ended, T) := st.rollouts.supersede
    some ({ st with rollouts := T },
      { q with phase := .withdraw (ended.flatMap (·.heldGrants)) w })
  | .withdraw ids w =>
    some ({ st with grants := st.grants.delete ids }, { q with phase := .schedule (.list w) })
  | .schedule sched =>
    let (sched, st, _) := sched.step installable st q.version
    let phase : RequestPhase := if sched ≠ .queue [] then .schedule sched
      else if q.kept = [] then .done
      else .settle
    some (st, { q with phase := phase })
  | .settle => some (st, { q with phase := .mark (q.kept.filter (· ∉ st.rollouts.heldGrants)) })
  | .mark ids => some ({ st with grants := st.grants.markDeliverable ids }, { q with phase := .done })
  | .refuse => some ({ st with grants := st.grants.delete q.kept }, { q with phase := .done })
  | .active =>
    some (st, { q with phase := .halting ((st.rollouts.active 50).filter (·.version = q.version)) })
  | .halt ro todo =>
    let (won, T) := st.rollouts.finish ro.id .halted
    let phase : RequestPhase := if won then .haltWithdraw ro.heldGrants todo else .halting todo
    some ({ st with rollouts := T }, { q with phase := phase })
  | .haltWithdraw ids todo =>
    some ({ st with grants := st.grants.delete ids }, { q with phase := .halting todo })
  | .cancel => some (st.cancelAgentUpdates q.version, { q with phase := .done })
  | .done => none

end Request

/-! ## The system -/

/-- An update that was queued for a held endpoint, or the grants that were made deliverable, in the
release of a rollout; with the canaries as they were read in the check before it. -/
structure Release where
  rollout : AgentRollout
  now : Time
  read : List Endpoint
  endpoint : Option Str

structure RolloutSystem where
  store : HubStore
  unclean : List (Str × Time) := []
  tick : Tick := .idle
  requests : Table Request.id := Table.empty
  releases : List Release := []

inductive RolloutEvent where
  /-- telemetry, enrolment or retirement -/
  | endpoints (eps : List Endpoint)
  /-- an agent reports the version it was to install -/
  | completed (endpointID : Str)
  /-- `AgentRollouts` of a new tick -/
  | start (now : Time)
  | tick
  /-- an authorized update request; its grants are kept -/
  | update (id : ℕ) (version : Str) (all : Bool) (ids canary : List Str)
      (grants : List (ResponseGrant × Str)) (now : Int)
  | rollback (id : ℕ) (version : Str)
  | request (id : ℕ) (rolloutID : Str) (now : Time)

namespace RolloutSystem

variable (installable : Str → Endpoint → Bool)

def stepTick (s : RolloutSystem) : Option RolloutSystem :=
  match s.tick with
  | .idle => none
  | .check now ro read id todo rest =>
    let found := s.store.endpoints.find? fun ep => ep.id = id
    let verdict := canaryVerdict s.unclean ro now id found
    some { s with
      unclean := verdict.2
      tick := match verdict.1 with
        | .healthy => .checked now ro (read ++ found.toList) rest todo
        | .problem => .halt now ro rest
        | .waiting => if ro.deadline < now then .halt now ro rest else .next now rest }
  | .schedule now ro read sched rest =>
    let (sched, store, queued) := sched.step installable s.store ro.version
    some { s with
      store := store
      tick := .scheduled now ro read rest sched
      releases := s.releases ++ queued.toList.map fun ep => ⟨ro, now, read, some ep⟩ }
  | .mark now ro read rest =>
    some { s with
      store := { s.store with grants := s.store.grants.markDeliverable ro.heldGrants }
      tick := .finish now ro rest
      releases := s.releases ++ [⟨ro, now, read, none⟩] }
  | .finish now ro rest =>
    some { s with
      store := { s.store with rollouts := (s.store.rollouts.finish ro.id .released).2 }
      tick := .next now rest }
  | .halt now ro rest =>
    let (won, T) := s.store.rollouts.finish ro.id .halted
    some { s with
      store := { s.store with rollouts := T }
      tick := if won then .withdraw now ro.heldGrants rest else .next now rest }
  | .withdraw now ids rest =>
    some { s with
      store := { s.store with grants := s.store.grants.delete ids }
      tick := .next now rest }

def firstPhase (all : Bool) (ids canary : List Str) (grants : List (ResponseGrant × Str)) :
    RequestPhase :=
  if sortedTargets canary = [] then
    .supersede ⟨all, ids, if grants = [] then none else some (grants.map (·.1.endpointID))⟩
  else .targets all ids (sortedTargets canary) (grants.map fun g => (g.1.endpointID, g.1.grantID))

def step (s : RolloutSystem) : RolloutEvent → Option RolloutSystem
  | .endpoints eps => some { s with store := { s.store with endpoints := eps } }
  | .completed endpointID =>
    some { s with store := { s.store with
      jobs := s.store.jobs.update endpointID (fun j => { j with completed := true }) fun _ => rfl } }
  | .start now =>
    match s.tick with
    | .idle => some { s with tick := .next now (s.store.rollouts.active 20) }
    | _ => none
  | .tick => s.stepTick installable
  | .update id version all ids canary grants now =>
    (s.requests.insert ⟨id, version, grants.map (·.1.grantID), none,
        firstPhase all ids canary grants⟩).map fun requests =>
      { s with
        requests := requests
        store := if grants = [] then s.store else { s.store with
          grants := s.store.grants.save (grants.map fun g => ⟨g.1, g.2, false⟩) now } }
  | .rollback id version =>
    (s.requests.insert ⟨id, version, [], none, .active⟩).map fun requests =>
      { s with requests := requests }
  | .request id rolloutID now => do
    let q ← s.requests.find id
    let (store, q') ← q.step installable s.store rolloutID now
    let requests := s.requests.update id (fun r => { q' with id := r.id }) fun _ => rfl
    some { s with store := store, requests := requests }

end RolloutSystem

end Ominull.Hub
