import Ominull.Agent.Manifest
import Ominull.Agent.Network
import Ominull.Lib.Files

/-! The agent's trust context and the files it keeps it in. -/

namespace Ominull.Agent

open Lib

/-- The files of the key and state directories. -/
inductive File where
  | trustEpoch
  | trustPin
  | capabilityCeiling
  | manifestFloor
  | manifestState
  | enforcementState
  | hostAuthority
  | hostAutoAllow
  | routineEpoch
  | routinePin
  | responsePub
  | autoIsolatePub
  | policyPub
  deriving DecidableEq

/-- One value for each of the three authority keys. -/
structure PerKey (α : Type) where
  response : α
  autoIsolate : α
  policy : α
  deriving DecidableEq

/-- A quarantined or released peer address. -/
structure TrustMeshSlot where
  ip : Str
  on : Bool
  since : Int
  deriving DecidableEq

/-- What the host is authorized to enforce. -/
structure TrustState where
  present : Bool := false
  isolated : Bool := false
  source : Str := str "none"
  isoAt : Int := 0
  isoGrant : Str := []
  allow : List Str := []
  mesh : List TrustMeshSlot := []
  rules : List TrustRule := []
  isoSeen : Int := 0
  meshSeen : Int := 0
  deriving DecidableEq

/-- The highest manifest sequence number taken under a policy key. -/
structure TrustFloor where
  key : Str
  seq : Int
  deriving DecidableEq

structure TrustHostKey where
  id : Str
  key : Str
  autoRole : Bool
  deriving DecidableEq

structure TrustHostAllow where
  name : Str
  sha256 : Str
  modes : List Str
  deriving DecidableEq

structure TrustRoutineKey where
  id : Str
  xy : Str
  deriving DecidableEq

structure RoutineKeys where
  keys : List TrustRoutineKey := []
  epoch : Int := 0
  floor : Int := 0
  list : Str := []
  loaded : Bool := false
  failed : Str := List.replicate 32 0
  deriving DecidableEq

structure TrustContext where
  endpointID : Str
  keys : PerKey Str := ⟨[], [], []⟩
  haveKey : PerKey Bool := ⟨false, false, false⟩
  tenant : Str := []
  epoch : Int := 0
  epochFloor : Int := 0
  ceiling : Str := []
  hostPresent : Bool := false
  hostKeys : List TrustHostKey := []
  hostAllow : List TrustHostAllow := []
  mfloor : List TrustFloor := []
  mfloorDirty : Bool := false
  manifest : Option TrustManifest := none
  state : TrustState := {}
  routine : RoutineKeys := {}
  failedBundle : Str := List.replicate 32 0
  deriving DecidableEq

def TrustContext.allows (t : TrustContext) (kind : Str) : Bool :=
  match capabilityFor kind with
  | none => false
  | some cap =>
    manifestHas t.manifest cap && ceilingHas t.ceiling cap &&
      !(cap = str "script" && ceilingSignedOnly t.ceiling && t.hostKeys = [])

/-- `Trust_ReadSmallFile` into a buffer of `cap` bytes: the text up to a zero byte. -/
def readSmall (cap : ℕ) (content : Option Str) : Option Str :=
  match content with
  | some c => if c ≠ [] ∧ c.length < cap - 1 then some (cString c) else none
  | none => none

/-! ## The enforcement state file -/

def maxAllow : ℕ := 32

def maxMesh : ℕ := 64

def flag (b : Bool) : Str := if b then str "1" else str "0"

namespace TrustState

def header : Str := str "ominull-enforcement 1\n"

@[irreducible] def text (s : TrustState) : Str :=
  header ++ str "iso " ++ flag s.isolated ++ str " " ++
    (if s.source = [] then str "none" else s.source) ++ str " " ++ decimalInt s.isoAt ++ str " " ++
    (if s.isoGrant = [] then str "-" else s.isoGrant) ++ str "\nseen " ++ decimalInt s.isoSeen ++
    str " " ++ decimalInt s.meshSeen ++ str "\n" ++
    s.allow.flatMap (fun a => str "allow " ++ a ++ str "\n") ++
    s.mesh.flatMap (fun m =>
      str "mesh " ++ m.ip ++ str " " ++ flag m.on ++ str " " ++ decimalInt m.since ++ str "\n") ++
    s.rules.flatMap (fun r =>
      str "rule " ++ r.service ++ str " " ++ r.destination ++ str " " ++ r.protocol ++ str " " ++
        decimalInt r.port ++ str "\n")

/-- `rule %15s %63s %7s %d`. -/
def scanRule (line : Str) : Option TrustRule := do
  let s ← scanLiteral (str "rule") line
  let (service, s) ← scanWord 15 s
  let (destination, s) ← scanWord 63 s
  let (protocol, s) ← scanWord 7 s
  let (port, _) ← scanInt32 s
  some ⟨service, destination, protocol, port⟩

/-- `iso %d %11s %lld %63s`. -/
def scanIso (line : Str) : Option (Int × Str × Int × Str) := do
  let s ← scanLiteral (str "iso") line
  let (on, s) ← scanInt32 s
  let (source, s) ← scanWord 11 s
  let (isoAt, s) ← scanInt s
  let (grant, _) ← scanWord 63 s
  some (on, source, isoAt, grant)

/-- `seen %lld %lld`. -/
def scanSeen (line : Str) : Option (Int × Int) := do
  let s ← scanLiteral (str "seen") line
  let (iso, s) ← scanInt s
  let (mesh, _) ← scanInt s
  some (iso, mesh)

/-- `allow %63s`. -/
def scanAllow (line : Str) : Option Str := do
  let s ← scanLiteral (str "allow") line
  let (a, _) ← scanWord 63 s
  some a

/-- `mesh %63s %d %lld`. -/
def scanMesh (line : Str) : Option TrustMeshSlot := do
  let s ← scanLiteral (str "mesh") line
  let (ip, s) ← scanWord 63 s
  let (on, s) ← scanInt32 s
  let (since, _) ← scanInt s
  some ⟨ip, on = 1, since⟩

def loadLine (s : TrustState) (line : Str) : TrustState :=
  match scanRule line with
  | some r => if s.rules.length < maxRules ∧ r.valid then { s with rules := s.rules ++ [r] } else s
  | none =>
    match scanIso line with
    | some (on, source, isoAt, grant) =>
      { s with isolated := on = 1, source := source, isoAt := isoAt,
               isoGrant := if grant = str "-" then [] else grant }
    | none =>
      match scanSeen line with
      | some (iso, mesh) => { s with isoSeen := iso, meshSeen := mesh }
      | none =>
        match (scanAllow line).filter fun a => s.allow.length < maxAllow && isAllowEntry a with
        | some a => { s with allow := s.allow ++ [a] }
        | none =>
          match (scanMesh line).filter fun m => s.mesh.length < maxMesh && isIPLiteral m.ip with
          | some m => { s with mesh := s.mesh ++ [m] }
          | none => s

def load (content : Option Str) : TrustState :=
  match (readSmall 16384 content).bind (scanLiteral header) with
  | none => {}
  | some body =>
    { (body.splitOnP fun b => b = 0x0d || b = 0x0a).foldl loadLine {} with present := true }

def save (s : TrustState) : Prog File (Option TrustState) :=
  if 16384 ≤ s.text.length then pure none
  else do
    let ok ← Prog.writeFile .enforcementState s.text
    pure (if ok then some { s with present := true } else none)

end TrustState

end Ominull.Agent
