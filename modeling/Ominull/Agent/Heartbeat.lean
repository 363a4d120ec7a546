import Ominull.Agent.Accept
import Ominull.Agent.Action

/-! The enforcement state: how a grant moves it, and what a heartbeat answer does. -/

namespace Ominull.Agent

open Lib

def meshForgetSeconds : Int := 25 * 3600

def updateFirst {α : Type} (p : α → Bool) (f : α → α) : List α → List α
  | [] => []
  | a :: l => if p a then f a :: l else a :: updateFirst p f l

/-- Forgets released slots once no grant that predates them can still be valid; a gap is filled
with the last slot. -/
def forgetMesh (now : Int) : ℕ → List TrustMeshSlot → List TrustMeshSlot
  | 0, l => l
  | _ + 1, [] => []
  | fuel + 1, m :: l =>
    if !m.on ∧ meshForgetSeconds < wrap64 (now - m.since) then
      match l.getLast? with
      | none => []
      | some last => forgetMesh now fuel (last :: l.dropLast)
    else m :: forgetMesh now fuel l

namespace TrustState

/-- A mesh action; the flag says whether a restriction changed. -/
def applyMesh (s : TrustState) (issuedAt : Int) (a : TrustAction) : Bool × TrustState :=
  let want : Bool := a.op = .meshOn
  match s.mesh.find? fun m => m.ip = a.ip with
  | some m =>
    if m.since < issuedAt then
      let mesh := updateFirst (fun m => m.ip = a.ip)
        (fun m => { m with on := want, since := issuedAt }) s.mesh
      (m.on ≠ want, { s with mesh := mesh })
    else (false, s)
  | none =>
    if want ∧ s.mesh.length < maxMesh then
      if 0 < issuedAt then (true, { s with mesh := s.mesh ++ [⟨a.ip, true, issuedAt⟩] })
      else (false, { s with mesh := s.mesh ++ [⟨a.ip, false, 0⟩] })
    else (false, s)

/-- An isolation action. A detector's grant does nothing to an isolation that is in force. -/
def applyIsolation (s : TrustState) (g : ResponseGrant) (a : TrustAction) : Bool × TrustState :=
  if g.issuedAt ≤ s.isoAt then (false, s)
  else if a.op = .autoIsolate ∧ s.isolated then (false, s)
  else
    let want : Bool := a.op ≠ .release
    (want ≠ s.isolated || a.allow ≠ s.allow || (want && a.rules ≠ s.rules),
      { s with
        isolated := want
        source := if a.op = .autoIsolate then str "auto" else if want then str "owner" else str "none"
        allow := if want then a.allow else []
        rules := if want then a.rules else []
        isoAt := g.issuedAt
        isoGrant := g.grantID })

def seen (s : TrustState) (mesh : Bool) : Int := if mesh then s.meshSeen else s.isoSeen

def mark (s : TrustState) (mesh : Bool) (issuedAt : Int) : TrustState :=
  if mesh then { s with meshSeen := issuedAt } else { s with isoSeen := issuedAt }

/-- The state a grant asks for, once it is verified and allowed. -/
def applyAction (s : TrustState) (mesh : Bool) (g : ResponseGrant) (a : TrustAction) (now : Int) :
    Bool × TrustState :=
  let (changed, s) := if mesh then s.applyMesh g.issuedAt a else s.applyIsolation g a
  (changed, { s with mesh := forgetMesh now s.mesh.length s.mesh })

end TrustState

/-- Saves a state and puts it in force; when it cannot be saved nothing changes. -/
def publish (t : TrustContext) (changed : Bool) (s : TrustState) :
    Prog File (Bool × TrustContext) := do
  let saved ← s.save
  pure (match saved with
    | some s => (changed, { t with state := s })
    | none => (false, t))

def isMeshKind (kind : Str) : Bool := kind = str "mesh_quarantine"

def isIsolationKind (kind : Str) : Bool := kind = str "isolation_change" || kind = str "auto_isolate"

/-- What becomes of a grant that is new to its watermark and meant for this host: the state to save
with the flag to report, or none when nothing is to be saved. -/
def judgeGrant (C : Crypto) (t : TrustContext) (g : ResponseGrant) (payload : Str) (now : Int) :
    Option (Bool × TrustState) :=
  let mesh := isMeshKind g.actionKind
  match verifyGrantCore C t g payload now with
  | (some _, genuine) =>
    -- a genuine grant outside its window still moves the mark, never past this host's clock
    if genuine ∧ g.issuedAt ≤ wrap64 (now + 60) then some (false, t.state.mark mesh g.issuedAt)
    else none
  | (none, _) =>
    match parseAction payload g.actionKind g.endpointID t.endpointID with
    | .error _ => none
    | .ok a =>
      let s := t.state.mark mesh g.issuedAt
      if a.op.restricts ∧ !t.allows g.actionKind then some (false, s)
      else some (s.applyAction mesh g a now)

/-- `Trust_ApplyGrant`: whether a restriction changed, and the context afterwards. -/
def applyGrant (C : Crypto) (t : TrustContext) (g : ResponseGrant) (payload : Str) (now : Int) :
    Prog File (Bool × TrustContext) :=
  let mesh := isMeshKind g.actionKind
  let iso := isIsolationKind g.actionKind
  if !mesh ∧ !iso then pure (false, t)
  else if g.issuedAt ≤ t.state.seen mesh then pure (false, t)
  else if iso ∧ g.endpointID ≠ t.endpointID then pure (false, t)
  else
    match judgeGrant C t g payload now with
    | none => pure (false, t)
    | some (changed, s) => publish t changed s

/-! ## The heartbeat answer -/

/-- `Trust_Bootstrap`: the hub's view, adopted once. -/
def bootstrap (t : TrustContext) (isolated : Bool) (allow peers : List Str) (rules : List TrustRule)
    (now : Int) : Prog File TrustContext := do
  let mark := wrap64 (now - 60)
  let s : TrustState :=
    { present := true, isoSeen := mark, isoAt := mark, meshSeen := mark, isolated := isolated,
      source := if isolated then str "bootstrap" else str "none",
      allow := if isolated then allow else [], rules := if isolated then rules else [],
      mesh := peers.map fun ip => ⟨ip, true, mark⟩ }
  let _ ← s.save
  pure { t with state := s }

/-- The list an answer carries under a key, empty when it is missing or unreadable. -/
def answerList (resp key : Str) (cap : ℕ) : List Str :=
  ((TJ.found resp key).bind (TJ.plainArray cap)).getD []

/-- The first run on a host without a state file. Only an answer that states the hub's view is
adopted. -/
def adopt (t : TrustContext) (resp : Str) (now : Int) : Prog File (Option TrustContext) :=
  match TJ.found resp (str "is_isolated") with
  | none => pure none
  | some v => do
    let isolated : Bool := v.take 4 = str "true"
    let allow := (answerList resp (str "isolation_allow_ips") maxAllow).filter isAllowEntry
    let peers := (answerList resp (str "quarantined_peers") maxMesh).filter isIPLiteral
    let rules := if isolated then
        ((TJ.found resp (str "isolation_baseline")).bind parseRules).getD []
      else []
    let t ← bootstrap t isolated allow peers rules now
    pure (some t)

/-- The elements of the grant list, at most so many. -/
def grantSpans : ℕ → Str → List Str
  | 0, _ => []
  | n + 1, s =>
    match s with
    | [] => []
    | 0x5d :: _ => []
    | s =>
      match TJ.skipValue 1 s with
      | none => []
      | some rest =>
        TJ.spanTo s rest :: grantSpans n (match TJ.ws rest with | 0x2c :: r => TJ.ws r | r => r)

def maxGrants : ℕ := 8

def answerGrants (resp : Str) : List (ResponseGrant × Str) :=
  match (TJ.found resp (str "enforcement_grants")).map TJ.ws with
  | some (0x5b :: s) => (grantSpans maxGrants (TJ.ws s)).filterMap readGrantObject
  | _ => []

def applyGrants (C : Crypto) (now : Int) :
    List (ResponseGrant × Str) → Bool × TrustContext → Prog File (Bool × TrustContext)
  | [], r => pure r
  | (g, payload) :: gs, (changed, t) => do
    let (c, t) ← applyGrant C t g payload now
    applyGrants C now gs (changed || c, t)

def processHeartbeat (C : Crypto) (t : TrustContext) (resp : Str) (now : Int) :
    Prog File (Bool × TrustContext) :=
  if resp = [] then pure (false, t)
  else do
    let t ← heartbeatTrust C t resp
    if t.state.present then applyGrants C now (answerGrants resp) (false, t)
    else do
      let adopted ← adopt t resp now
      match adopted with
      | none => pure (false, t)
      | some t => applyGrants C now (answerGrants resp) (true, t)

end Ominull.Agent
