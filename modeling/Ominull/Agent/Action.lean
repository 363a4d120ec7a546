import Ominull.Agent.Context

/-! Grants and the action each of them authorizes. -/

namespace Ominull.Agent

open Lib

inductive TrustOp where
  | isolate
  | release
  | autoIsolate
  | meshOn
  | meshOff
  | update
  deriving DecidableEq

/-- The operations that add a restriction. -/
def TrustOp.restricts : TrustOp → Bool
  | .isolate | .autoIsolate | .meshOn => true
  | _ => false

/-- What a signed payload does to this host. -/
structure TrustAction where
  op : TrustOp
  allow : List Str := []
  rules : List TrustRule := []
  ip : Str := []
  version : Str := []
  deriving DecidableEq

def exceptionsUnreadable : Str := str "isolation exceptions unreadable"

/-- One entry of the baselines, given the exceptions found for this host so far. -/
def baselineEntry (self : Str) (found : Option (List TrustRule)) (v : Str) :
    Except Str (Option (List TrustRule)) :=
  match TJ.found v (str "endpoints"), TJ.found v (str "rules") with
  | some endpoints, some rules =>
    match TJ.plainArray 64 endpoints with
    | none => .error exceptionsUnreadable
    | some endpoints =>
      match parseRules rules with
      | none => .error (str "isolation exceptions unreadable or too many")
      | some rules =>
        if self ∉ endpoints then .ok found
        else if found.isSome ∨ 1 < endpoints.count self then
          .error (str "isolation exceptions name this host twice")
        else .ok (some rules)
  | _, _ => .error exceptionsUnreadable

/-- `Trust_ParseBaselines`: this host's isolation exceptions. -/
def parseBaselines (payload self : Str) : Except Str (List TrustRule) :=
  match TJ.member payload (str "baselines") with
  | none => .error (str "payload unreadable")
  | some none => .ok []
  | some (some v) =>
    (TJ.walkArray exceptionsUnreadable (baselineEntry self) none v).map (·.getD [])

def bodyNames (body self : Str) : Bool := TJ.memberPlain body (str "endpoint_id") 64 = some self

def parseMesh (route body grantEndpoint : Str) (targets : List Str) : Except Str TrustAction :=
  let op : Option TrustOp :=
    if route = str "/api/v1/mesh/quarantine" then some .meshOn
    else if route = str "/api/v1/mesh/unquarantine" then some .meshOff
    else none
  match op with
  | none => .error (str "mesh grant over a non-mesh route")
  | some op =>
    match (TJ.memberPlain body (str "target_ip") 64).filter isIPLiteral with
    | none => .error (str "mesh body has no address")
    | some ip =>
      let want := str "mesh:" ++ ip
      if targets ≠ [want] ∨ grantEndpoint ≠ want then
        .error (str "mesh grant and body disagree on the address")
      else .ok { op := op, ip := ip }

def parseAllow (body : Str) : Except Str (List Str) :=
  match TJ.member body (str "allow_ips") with
  | none => .error (str "isolation body unreadable")
  | some none => .ok []
  | some (some v) =>
    match TJ.plainArray maxAllow v with
    | none => .error (str "isolation allow list unreadable or too long")
    | some allow =>
      if allow.all isAllowEntry then .ok allow
      else .error (str "isolation allow list holds a non-address or too wide a range")

/-- The four routes of an isolation change: the operation, and whether the body names one
endpoint. -/
def isolationRoute (route : Str) : Option (TrustOp × Bool) :=
  if route = str "/api/v1/endpoints/isolate" then some (.isolate, true)
  else if route = str "/api/v1/endpoints/isolate-bulk" then some (.isolate, false)
  else if route = str "/api/v1/endpoints/unisolate" then some (.release, true)
  else if route = str "/api/v1/endpoints/unisolate-bulk" then some (.release, false)
  else none

def parseIsolation (payload route body self : Str) (targets : List Str) :
    Except Str TrustAction :=
  match isolationRoute route with
  | none => .error (str "isolation grant over an unknown route")
  | some (op, single) =>
    if single ∧ (targets.length ≠ 1 ∨ !bodyNames body self) then
      .error (str "isolation body names another endpoint")
    else if op = .isolate then do
      let allow ← parseAllow body
      let rules ← parseBaselines payload self
      .ok { op := .isolate, allow := allow, rules := rules }
    else .ok { op := op }

def parseEndpointAction (payload kind route body self : Str) (targets : List Str) :
    Except Str TrustAction :=
  if kind = str "auto_isolate" then
    if route ≠ str "auto-isolate" then
      .error (str "auto-isolation key used for something other than isolating")
    else if !bodyNames body self ∨ targets.length ≠ 1 then
      .error (str "auto-isolation body names another endpoint")
    else do
      let rules ← parseBaselines payload self
      .ok { op := .autoIsolate, rules := rules }
  else if kind = str "agent_update" then
    if route ≠ str "/api/v1/agents/update" then .error (str "update grant over a non-update route")
    else
      match TJ.memberPlain body (str "version") 64 with
      | none => .error (str "update body names no version")
      | some version => .ok { op := .update, version := version }
  else if kind ≠ str "isolation_change" then .error (str "unsupported grant kind")
  else parseIsolation payload route body self targets

def parseAction (payload kind grantEndpoint self : Str) : Except Str TrustAction :=
  match TJ.memberPlain payload (str "route") 64 with
  | none => .error (str "payload has no readable route")
  | some route =>
    match TJ.found payload (str "body") with
    | none => .error (str "payload has no body")
    | some body =>
      match TJ.found payload (str "targets") with
      | none => .error (str "payload has no targets")
      | some targets =>
        match (TJ.plainArray 64 targets).filter (· ≠ []) with
        | none => .error (str "payload targets unreadable")
        | some targets =>
          if (TJ.members body).isNone then .error (str "payload body unreadable")
          else if kind = str "mesh_quarantine" then parseMesh route body grantEndpoint targets
          else if self ∉ targets ∨ grantEndpoint ≠ self then
            .error (str "grant is for another endpoint")
          else parseEndpointAction payload kind route body self targets

/-! ## Verifying a grant -/

/-- The key a grant of this kind must be signed with, where it is pinned. -/
def TrustContext.keyFor (t : TrustContext) (kind : Str) : Option Str :=
  if kind = str "auto_isolate" then
    if t.haveKey.autoIsolate then some t.keys.autoIsolate else none
  else if t.haveKey.response then some t.keys.response
  else none

def ResponseGrant.signedBy (C : Crypto) (g : ResponseGrant) (key : Str) : Bool :=
  match encodeGrantCanonical g, hexToBytes g.signature 64 with
  | some canon, some sig => g.signature.length = 128 && C.verify key canon sig
  | _, _ => false

/-- The grant is over these payload bytes. -/
def ResponseGrant.covers (C : Crypto) (g : ResponseGrant) (payload : Str) : Bool :=
  equalsIgnoreCase (sha256Hex C payload) g.actionDigest

/-- Why a grant is outside its time window, with a minute of grace on both sides. -/
def ResponseGrant.windowRefusal (g : ResponseGrant) (now : Int) : Option Str :=
  if g.issuedAt ≤ 0 ∨ g.expiresAt < g.issuedAt then some (str "grant has no valid time window")
  else if now < wrap64 (g.issuedAt - 60) then some (str "grant is not valid yet (clock skew)")
  else if wrap64 (g.expiresAt + 60) < now then some (str "grant has expired")
  else none

/-- `Trust_VerifyGrantCore`: why not, if not, and whether the signature verified. -/
def verifyGrantCore (C : Crypto) (t : TrustContext) (g : ResponseGrant) (payload : Str) (now : Int) :
    Option Str × Bool :=
  if g.version ≠ 2 ∧ g.version ≠ 3 then (some (str "unsupported grant version"), false)
  else
    match t.keyFor g.actionKind with
    | none =>
      (some (if g.actionKind = str "auto_isolate" then str "no auto-isolation key is pinned"
        else str "no response key is pinned"), false)
    | some key =>
      if g.tenantID ≠ t.tenant then (some (str "grant for another tenant"), false)
      else if !g.covers C payload then (some (str "payload does not match the grant digest"), false)
      else if (encodeGrantCanonical g).isNone ∨ g.signature.length ≠ 128 ∨
          (hexToBytes g.signature 64).isNone then
        (some (str "grant signature unreadable"), false)
      else if !g.signedBy C key then (some (str "grant signature does not verify"), false)
      else (g.windowRefusal now, true)

def maxPayload : ℕ := 8192

def readGrantObject (v : Str) : Option (ResponseGrant × Str) := do
  let grant ← TJ.found v (str "grant")
  let b64 ← TJ.memberPlain v (str "payload_b64") ((maxPayload / 3 + 2) * 4 + 4)
  if 2048 ≤ grant.length then none
  else
    let (g, _) ← extractGrantObject (cString grant)
    let payload := base64Decode b64 maxPayload
    if payload = [] ∨ maxPayload ≤ payload.length then none else some (g, payload)

end Ominull.Agent
