import Ominull.Hub.PackageRun
import Ominull.Response.Faults

/-!
Playbook runs: ordered package runs on chosen machines. The runs are kept in one setting, which a tick reads,
moves along machine by machine and writes back.
-/

namespace Ominull.Hub

open Lib Go Response

structure PlaybookRunStep where
  label : Str
  /-- the exact payload; dropped when the run ends -/
  item : Str
  /-- a restart step: the next step waits for the machine to come back from it -/
  reboot : Bool
  deriving DecidableEq

inductive StepState where
  | pending
  | started
  | done
  | notStarted
  deriving DecidableEq

structure PlaybookHostStep where
  state : StepState
  jobID : Str := []
  result : Option RunState := none
  grant : Option EndpointGrant := none
  holdUntil : Option Time := none
  deriving DecidableEq

structure PlaybookRun where
  /-- which of the starts this run is; not stored -/
  serial : ℕ
  id : Str
  tenant : Str
  playbookID : Str
  name : Str
  requester : Str
  started : Time
  deadline : Time
  done : Bool
  steps : List PlaybookRunStep
  hosts : List (Str × List PlaybookHostStep)
  deriving DecidableEq

def playbookRunsKept : ℕ := 20

def playbookRestartSettle : Time := 2 * 60 * second

/-- The list `savePlaybookRuns` writes: the newest first, without the finished runs beyond the kept count. -/
def keptRuns (runs : List PlaybookRun) : List PlaybookRun :=
  ((runs.insertionSort fun a b => b.started ≤ a.started).zipIdx.filter fun p =>
    !p.1.done || p.2 < playbookRunsKept).map Prod.fst

/-- A job that a tick created for a step, and when the machine had last checked in. -/
structure Created where
  serial : ℕ
  ep : Str
  step : ℕ
  jobID : Str
  time : Time
  seen : Option Time
  deriving DecidableEq

/-- A step that a tick found ended, with the job it found. -/
structure Ended where
  serial : ℕ
  ep : Str
  step : ℕ
  job : JobRecord
  time : Time
  deriving DecidableEq

/-- What a creation that succeeds draws: its own time and a random id. -/
structure Creation where
  now : Time
  freshID : Str

def getJob (store : Store) (tenantID jobID : Str) : Option JobRecord :=
  (store.jobs.find jobID).filter fun j => tenantID = [] || j.tenantID = tenantID || tenantID = str "default"

def backFromRestart (seen : Option Time) (hold now : Time) : Bool :=
  !decide (now < hold) && seen.any fun t => decide (hold < t)

/-- How long the step behind a restart waits. -/
def PackageRun.hold (pr : PackageRun) (now : Time) : Time :=
  pr.completedAt.getD now + wrap64 (seconds pr.restartIn + playbookRestartSettle)

namespace PlaybookRun

def rebootAt (r : PlaybookRun) (i : ℕ) : Bool := (r.steps[i]?.map (·.reboot)).getD false

def itemAt (r : PlaybookRun) (i : ℕ) : Str := (r.steps[i]?.map (·.item)).getD []

/-- The hold behind a step that has ended: only a restart that fixed something has one. -/
def holdAfter (r : PlaybookRun) (i : ℕ) (pr : PackageRun) (now : Time) : Option Time :=
  if r.rebootAt i = true ∧ pr.state = .fixed then some (pr.hold now) else none

/-- The arguments a step's job is created with. -/
def createArgs (r : PlaybookRun) (ep : Str) (i : ℕ) (st : PlaybookHostStep) : CreateArgs where
  tenantID := r.tenant
  endpointID := ep
  kind := actionKindScriptExec
  requestedBy := r.requester
  grant := st.grant
  payloadJSON := r.itemAt i
  idempotencyKey := []

end PlaybookRun

/-- What moving machines along leaves: the steps, the job store, what happened, whether anything changed and
whether a step is left. -/
structure Advance (α : Type) where
  left : List α
  store : Store
  created : List Created := []
  ended : List Ended := []
  changed : Bool := false
  live : Bool := false

namespace Advance

variable {α : Type}

def cons (a : α) (x : Advance α) : Advance α := { x with left := a :: x.left }

/-- One machine or run, then the rest. -/
def andThen (a : α) {β : Type} (x : Advance β) (y : Advance α) : Advance α where
  left := a :: y.left
  store := y.store
  created := x.created ++ y.created
  ended := x.ended ++ y.ended
  changed := x.changed || y.changed
  live := x.live || y.live

end Advance

section

variable (run : PlaybookRun) (ep : Str) (now : Time) (seen : Option Time) (creation : Option Creation) (store : Store)

/-- `CreateJob` for a step; no creation is one that fails. -/
def startStep (i : ℕ) (st : PlaybookHostStep) : Option (JobRecord × Store) :=
  creation.bind fun c =>
    match store.createJob c.now c.freshID (run.createArgs ep i st) with
    | (.ok job, store') => some (job, store')
    | (.error _, _) => none

/-- A step whose job is over. -/
def finishStep (i : ℕ) (st : PlaybookHostStep) (pr : PackageRun) : PlaybookHostStep :=
  { st with
    state := .done, result := some (if pr.state = .waiting then .notRun else pr.state)
    holdUntil := (run.holdAfter i pr now).or st.holdUntil }

def advanceHost : (i : ℕ) → (prev : Option PlaybookHostStep) → List PlaybookHostStep → Advance PlaybookHostStep
  | _, _, [] => { left := [], store }
  | i, prev, st :: rest =>
    match st.state with
    | .done | .notStarted => (advanceHost (i + 1) (some st) rest).cons st
    | .started =>
      match getJob store run.tenant st.jobID with
      | none =>
        let st' := { st with state := .done, result := some .failed }
        { (advanceHost (i + 1) (some st') rest).cons st' with changed := true }
      | some job =>
        let pr := derivePackageRun job now
        if pr.state = .running ∨ (pr.state = .waiting ∧ now < run.deadline + packageRunGrace) then
          { left := st :: rest, store, live := true }
        else
          let st' := finishStep run now i st pr
          let x := advanceHost (i + 1) (some st') rest
          { x.cons st' with ended := ⟨run.serial, ep, i, job, now⟩ :: x.ended, changed := true }
    | .pending =>
      -- It starts while the grants still live.
      if run.deadline ≤ now then
        { left := (st :: rest).map fun x => { x with state := .notStarted, grant := none }, store, changed := true }
      else if !((prev.bind (·.holdUntil)).all fun hold => backFromRestart seen hold now) then
        { left := st :: rest, store, live := true }
      else
        match startStep run ep creation store i st with
        | none => { left := st :: rest, store, live := true }
        | some (job, store') =>
          { left := { st with state := .started, jobID := job.id, grant := none } :: rest, store := store'
            created := [⟨run.serial, ep, i, job.id, now, seen⟩], changed := true, live := true }

end

/-- An order in which a Go map is ranged over. -/
structure MapOrder where
  arrange : List (Str × List PlaybookHostStep) → List (Str × List PlaybookHostStep)
  perm : ∀ l, (arrange l).Perm l

def advanceHosts (run : PlaybookRun) (now : Time) (seen : Str → Option Time) (creations : Str → Option Creation) :
    Store → List (Str × List PlaybookHostStep) → Advance (Str × List PlaybookHostStep)
  | store, [] => { left := [], store }
  | store, (ep, steps) :: rest =>
    let x := advanceHost run ep now (seen ep) (creations ep) store 0 none steps
    Advance.andThen (ep, x.left) x (advanceHosts run now seen creations x.store rest)

/-- A run after its machines have moved; one with no step left is over. -/
def PlaybookRun.moved (r : PlaybookRun) (x : Advance (Str × List PlaybookHostStep)) : PlaybookRun :=
  if x.live then { r with hosts := x.left }
  else { r with hosts := x.left, done := true, steps := r.steps.map fun st => { st with item := [] } }

/-- The loop of `advancePlaybookRuns`; `k` counts the runs of the list. -/
def advanceRuns (now : Time) (seen : Str → Option Time) (order : MapOrder) (creations : ℕ → Str → Option Creation) :
    (k : ℕ) → Store → List PlaybookRun → Advance PlaybookRun
  | _, store, [] => { left := [], store }
  | k, store, r :: rest =>
    if r.done then (advanceRuns now seen order creations (k + 1) store rest).cons r
    else
      let x := advanceHosts r now seen (creations k) store (order.arrange r.hosts)
      Advance.andThen (r.moved x) { x with changed := x.changed || !x.live }
        (advanceRuns now seen order creations (k + 1) x.store rest)

/-- The hub's playbooks: the job store, the saved list, when each machine last checked in and the time of the last
tick; then what there has been, the runs as they were started, the jobs created and the endings saved. -/
structure Playbooks where
  store : Store
  runs : List PlaybookRun
  seen : Str → Option Time
  clock : Time
  starts : List PlaybookRun
  created : List Created
  ended : List Ended

/-- A run that `handlePlaybookRun` records. -/
structure RunPlan where
  id : Str
  tenant : Str
  playbookID : Str
  name : Str
  requester : Str
  started : Time
  deadline : Time
  steps : List PlaybookRunStep
  /-- the machines and the grant of each step on them -/
  targets : List (Str × List EndpointGrant)
  distinct : (targets.map Prod.fst).Nodup

def RunPlan.run (p : RunPlan) (serial : ℕ) : PlaybookRun where
  serial := serial
  id := p.id
  tenant := p.tenant
  playbookID := p.playbookID
  name := p.name
  requester := p.requester
  started := p.started
  deadline := p.deadline
  done := false
  steps := p.steps
  hosts := p.targets.map fun t => (t.1, t.2.map fun g => { state := .pending, grant := some g })

inductive PlaybookEvent where
  | start (plan : RunPlan) (saved : Bool)
  | tick (now : Time) (order : MapOrder) (creations : ℕ → Str → Option Creation) (saved : Bool)
  | job (e : Response.Event)
  | checkIn (ep : Str) (t : Time)

namespace Playbooks

def tick (s : Playbooks) (now : Time) (order : MapOrder) (creations : ℕ → Str → Option Creation) (saved : Bool) :
    Playbooks :=
  let x := advanceRuns now s.seen order creations 0 s.store s.runs
  let s' := { s with store := x.store, clock := now, created := s.created ++ x.created }
  if x.changed && saved then { s' with runs := keptRuns x.left, ended := s.ended ++ x.ended } else s'

/-- A step of the hub; ticks do not go back in time. -/
def step (s : Playbooks) : PlaybookEvent → Option Playbooks
  | .start plan saved =>
    if saved then
      some { s with runs := keptRuns (s.runs ++ [plan.run s.starts.length]), starts := s.starts ++ [plan.run s.starts.length] }
    else some s
  | .tick now order creations saved => if now < s.clock then none else some (s.tick now order creations saved)
  | .job e => some { s with store := s.store.next e }
  | .checkIn ep t => some { s with seen := Function.update s.seen ep (some t) }

def idle (store : Store) (seen : Str → Option Time) (clock : Time) : Playbooks where
  store := store
  runs := []
  seen := seen
  clock := clock
  starts := []
  created := []
  ended := []

end Playbooks

end Ominull.Hub
