import Ominull.Agent.HostAuthority

/-!
Pinning the authority's keys and capability manifests, and what a start, a re-pin and a heartbeat do
to the files they are kept in.
-/

namespace Ominull.Agent

open Lib

def trustTenant : Str := str "default"

def trustMinEpoch : Int := 1

/-! ## The pinned bundle -/

/-- A trust bundle with its keys in hex: the form it is offered, signed and pinned in. -/
structure TrustBundle where
  tenant : Str
  epoch : Int
  hex : PerKey Str
  deriving DecidableEq

namespace TrustBundle

def lines (b : TrustBundle) : Str :=
  str "tenant=" ++ (b.tenant ++ (str "\nepoch=" ++ (decimalInt b.epoch ++ (str "\nresponse_key=" ++
    (b.hex.response ++ (str "\nauto_isolate_key=" ++ (b.hex.autoIsolate ++ (str "\npolicy_key=" ++
    (b.hex.policy ++ str "\n")))))))))

def statement (b : TrustBundle) : Str := str "OMINULL-TRUST-BUNDLE-V1\n" ++ b.lines

def pinText (b : TrustBundle) : Str := str "ominull-trust 1\n" ++ b.lines

def keys (b : TrustBundle) : Option (PerKey Str) := do
  let response ← hexKey b.hex.response
  let autoIsolate ← hexKey b.hex.autoIsolate
  let policy ← hexKey b.hex.policy
  some ⟨response, autoIsolate, policy⟩

def scan (s : Str) : Option TrustBundle := do
  let s ← scanLiteral (str "ominull-trust") s
  let s ← scanLiteral (str "1") (skipSpaces s)
  let s ← scanLiteral (str "tenant=") (skipSpaces s)
  let (tenant, s) ← scanLine 63 s
  let s ← scanLiteral (str "epoch=") (skipSpaces s)
  let (epoch, s) ← scanInt s
  let s ← scanLiteral (str "response_key=") (skipSpaces s)
  let (response, s) ← scanLine 79 s
  let s ← scanLiteral (str "auto_isolate_key=") (skipSpaces s)
  let (autoIsolate, s) ← scanLine 79 s
  let s ← scanLiteral (str "policy_key=") (skipSpaces s)
  let (policy, _) ← scanLine 79 s
  some ⟨tenant, epoch, ⟨response, autoIsolate, policy⟩⟩

end TrustBundle

def parsePin (s : Str) : Option (TrustBundle × PerKey Str) := do
  let b ← TrustBundle.scan s
  if b.epoch < 1 then none
  else
    let keys ← b.keys
    some (b, keys)

def epochFloorOf (content : Option Str) : Int :=
  match (readSmall 600 content).bind scanInt with
  | some (floor, _) => max floor trustMinEpoch
  | none => trustMinEpoch

/-- What `Trust_LoadPin` makes of trust.epoch and trust.pin. -/
def takePin (t : TrustContext) (epoch pin : Option Str) : TrustContext :=
  let t := { t with epochFloor := epochFloorOf epoch }
  match (readSmall 600 pin).bind parsePin with
  | none => { t with tenant := [] }
  | some (b, keys) =>
    let t := { t with tenant := b.tenant, epoch := b.epoch, keys := keys }
    if b.tenant ≠ trustTenant ∨ b.epoch < t.epochFloor then { t with tenant := [] }
    else { t with haveKey := ⟨true, true, true⟩ }

def loadPin (t : TrustContext) : Prog File TrustContext := do
  let epoch ← Prog.readFile .trustEpoch
  let pin ← Prog.readFile .trustPin
  pure (takePin t epoch pin)

/-! ## Manifests and their floors -/

def maxMfloor : ℕ := 8

def TrustContext.manifestVerify (C : Crypto) (t : TrustContext) (m : TrustManifest) : Bool :=
  t.haveKey.policy && m.verify C t.endpointID t.tenant t.keys.policy

def TrustContext.manifestFloored (t : TrustContext) (seq : Int) : Bool :=
  t.haveKey.policy &&
    match t.mfloor.find? fun f => f.key = t.keys.policy with
    | some f => seq ≤ f.seq
    | none => false

/-- `Trust_FloorInsert`: the key moves to the newest place; a full list forgets its oldest key. -/
def floorInsert (l : List TrustFloor) (key : Str) (seq : Int) : List TrustFloor :=
  let rest := match l.findIdx? fun f => f.key = key with
    | some i => l.eraseIdx i
    | none => if l.length = maxMfloor then l.drop 1 else l
  rest ++ [⟨key, seq⟩]

def floorLine (f : TrustFloor) : Str :=
  hexEncode f.key ++ (str " " ++ (decimalInt f.seq ++ str "\n"))

def floorsText (l : List TrustFloor) : Str := l.flatMap floorLine

def writeFloors (l : List TrustFloor) : Prog File Bool :=
  Prog.writeFile .manifestFloor (floorsText l)

def raiseManifestFloor (t : TrustContext) (seq : Int) : Prog File (Bool × TrustContext) :=
  if !t.haveKey.policy then pure (true, t)
  else if t.manifestFloored seq && !t.mfloorDirty then pure (true, t)
  else do
    let next := if t.manifestFloored seq then t.mfloor else floorInsert t.mfloor t.keys.policy seq
    let ok ← writeFloors next
    if ok then pure (true, { t with mfloor := next, mfloorDirty := false }) else pure (false, t)

def storedManifest (content : Option Str) : Option TrustManifest :=
  (readSmall 2048 content).bind TrustManifest.parse

/-- What `Trust_LoadManifestState` makes of the stored manifest. -/
def takeStoredManifest (C : Crypto) (t : TrustContext) (content : Option Str) : TrustContext :=
  match storedManifest content with
  | none => t
  | some m =>
    if !t.manifestVerify C m then t
    else if (match t.manifest with | some old => decide (m.seq ≤ old.seq) | none => false) then t
    else
      let t := { t with manifest := some m }
      if t.manifestFloored m.seq then t
      else { t with mfloor := floorInsert t.mfloor t.keys.policy m.seq, mfloorDirty := true }

def loadManifestState (C : Crypto) (t : TrustContext) : Prog File TrustContext := do
  let stored ← Prog.readFile .manifestState
  pure (takeStoredManifest C t stored)

/-- The floors in manifest.floor. Each scan starts at a line and may run past its end. -/
def loadFloors : ℕ → List TrustFloor → Str → List TrustFloor
  | 0, l, _ => l
  | fuel + 1, l, s =>
    if s = [] ∨ maxMfloor ≤ l.length then l
    else
      let entry : Option TrustFloor := do
        let (hex, r) ← scanWord 79 s
        let (seq, _) ← scanInt r
        let key ← hexKey hex
        if 0 < seq then some ⟨key, seq⟩ else none
      match s.dropWhile (· != 0x0a) with
      | [] => l ++ entry.toList
      | _ :: rest => loadFloors fuel (l ++ entry.toList) rest

def floorsOf (content : Option Str) : List TrustFloor :=
  let floors := (readSmall 2048 content).getD []
  loadFloors (floors.length + 1) [] floors

/-- The ceiling a file sets: what cannot be read is monitor. -/
def ceilingOf (content : Option Str) : Str :=
  match content with
  | none => []
  | some c =>
    match ((readSmall 2048 (some c)).bind (scanWord 31)).filter fun w => ceilingName w.1 with
    | some (name, _) => name
    | none => str "monitor"

def init (C : Crypto) (endpointID : Str) : Prog File TrustContext := do
  let t ← loadPin { endpointID := endpointID.take 63 }
  let ceiling ← Prog.readFile .capabilityCeiling
  let floors ← Prog.readFile .manifestFloor
  let t := { t with ceiling := ceilingOf ceiling, mfloor := floorsOf floors }
  let t ← loadHostAuthority C t
  let t ← loadManifestState C t
  let state ← Prog.readFile .enforcementState
  pure { t with state := TrustState.load state }

end Ominull.Agent
