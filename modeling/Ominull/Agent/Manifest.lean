import Ominull.Agent.Grant
import Ominull.Agent.TrustJson

/-! Capability manifests: what an endpoint accepts at all. -/

namespace Ominull.Agent

open Lib

def maxCaps : ℕ := 12

structure TrustManifest where
  tenantID : Str
  endpointID : Str
  profile : Str
  caps : List Str
  seq : Int
  issuedAt : Int
  signerKeyID : Str
  signature : Str
  deriving DecidableEq

namespace TrustManifest

/-- `Trust_ManifestCanonical` before the check that the bytes fit. -/
def canonical (m : TrustManifest) : Str :=
  frame (str "OMINULL-CAPABILITY-MANIFEST-V1") ++ (bigEndian 4 1 ++ (frame m.tenantID ++
    (frame m.endpointID ++ (frame m.profile ++ (frames m.caps ++ (bigEndian 8 (unsigned64 m.seq) ++
    (bigEndian 8 (unsigned64 m.issuedAt) ++ hexNormalizedFrame m.signerKeyID)))))))

def sortedCaps : List Str → Bool
  | a :: b :: caps => a < b && sortedCaps (b :: caps)
  | _ => true

def verify (C : Crypto) (m : TrustManifest) (endpointID tenant policyKey : Str) : Bool :=
  0 < m.seq && m.endpointID = endpointID && m.tenantID = tenant && sortedCaps m.caps &&
    m.canonical.length ≤ 1024 && m.signature.length = 128 &&
    match hexToBytes m.signature 64 with
    | some sig => C.verify policyKey m.canonical sig
    | none => false

/-- The capability names of a manifest object, each in its 24-byte buffer. -/
def parseCaps (v : Str) : Option (List Str) := do
  let caps ← TJ.plainArray maxCaps v
  if caps.all fun c => c.length < 24 then some caps else none

def parse (v : Str) : Option TrustManifest := do
  let version ← TJ.memberInt v (str "v")
  if version ≠ 1 then none else
  let tenantID ← TJ.memberPlain v (str "tenant_id") 64
  let endpointID ← TJ.memberPlain v (str "endpoint_id") 64
  let profile ← TJ.memberPlain v (str "profile") 24
  let signerKeyID ← TJ.memberPlain v (str "signer_key_id") 65
  let signature ← TJ.memberPlain v (str "signature") 129
  let seq ← TJ.memberInt v (str "seq")
  let issuedAt ← TJ.memberInt v (str "issued_at")
  let caps ← (TJ.found v (str "caps")).bind parseCaps
  some ⟨tenantID, endpointID, profile, caps, seq, issuedAt, signerKeyID, signature⟩

/-- `Trust_ManifestJSON`. Every manifest the parser returns fits its buffer, so nothing is cut. -/
def json (m : TrustManifest) : Str :=
  str "\x7b\"v\":1,\"tenant_id\":" ++ (TJ.quoted m.tenantID ++ (str ",\"endpoint_id\":" ++
    (TJ.quoted m.endpointID ++ (str ",\"profile\":" ++ (TJ.quoted m.profile ++ (str ",\"caps\":[" ++
    ([0x2c].intercalate (m.caps.map TJ.quoted) ++ (str "],\"seq\":" ++ (decimalInt m.seq ++
    (str ",\"issued_at\":" ++ (decimalInt m.issuedAt ++ (str ",\"signer_key_id\":" ++
    (TJ.quoted m.signerKeyID ++ (str ",\"signature\":" ++ (TJ.quoted m.signature ++
    str "\x7d\n")))))))))))))))

end TrustManifest

def capabilityFor (kind : Str) : Option Str :=
  if kind = str "isolation_change" ∨ kind = str "auto_isolate" then some (str "isolate")
  else if kind = str "mesh_quarantine" then some (str "mesh")
  else if kind = str "agent_update" then some (str "update")
  else if kind = str "forensic_collection" then some (str "collect")
  else if kind = str "script_exec" then some (str "script")
  else if kind = str "terminal_session" then some (str "terminal")
  else if kind = str "screen_session" then some (str "screen")
  else none

def manifestHas (m : Option TrustManifest) (cap : Str) : Bool :=
  match m with
  | none => cap = str "update"
  | some m => m.caps.contains cap

/-- `Trust_CeilingHas`; the empty ceiling is none. -/
def ceilingHas (ceiling cap : Str) : Bool :=
  if ceiling = [] then true
  else if cap = str "update" then true
  else if ceiling = str "engagement" then true
  else if ceiling = str "respond" then cap ≠ str "script"
  else
    let isolateLevel : Bool := cap = str "isolate" || cap = str "mesh" || cap = str "collect"
    if ceiling = str "isolate" then isolateLevel
    else if ceiling = str "signed-scripts" then isolateLevel || cap = str "script"
    else if ceiling = str "monitor-signed-scripts" then cap = str "collect" || cap = str "script"
    else false

def ceilingSignedOnly (ceiling : Str) : Bool :=
  ceiling = str "signed-scripts" || ceiling = str "monitor-signed-scripts"

def profileName (p : Str) : Bool :=
  p = str "monitor" || p = str "respond" || p = str "engagement"

def ceilingName (p : Str) : Bool := profileName p || p = str "isolate" || ceilingSignedOnly p

end Ominull.Agent
