import Ominull.Agent.Routine

/-! Taking the hub's trust offer and manifest, and the local re-pin. -/

namespace Ominull.Agent

open Lib

def TrustContext.pinned (t : TrustContext) : Bool :=
  t.haveKey.response && t.haveKey.autoIsolate && t.haveKey.policy

/-- One key of a trust offer: in lower-case hex, and its bytes. -/
def readOfferKey (obj field : Str) : Option (Str × Str) := do
  let hex ← TJ.memberPlain obj field 80
  let key ← hexKey hex
  some (lower hex, key)

/-- The three keys of a trust offer, in lower-case hex and in bytes. -/
def readOfferKeys (obj : Str) : Option (PerKey Str × PerKey Str) := do
  let response ← readOfferKey obj (str "response_key")
  let autoIsolate ← readOfferKey obj (str "auto_isolate_key")
  let policy ← readOfferKey obj (str "policy_key")
  some (⟨response.1, autoIsolate.1, policy.1⟩, ⟨response.2, autoIsolate.2, policy.2⟩)

/-- The signed part of a trust offer: tenant, epoch and signature. -/
def readOfferSignature (obj : Str) : Option (Str × Int × Str) := do
  let tenant ← (TJ.memberPlain obj (str "tenant_id") 64).filter (· ≠ [])
  let sig ← (TJ.memberPlain obj (str "bundle_sig") 256).filter (· ≠ [])
  let epoch ← TJ.memberInt obj (str "epoch")
  some (tenant, epoch, sig)

/-- The two writes that pin a verified bundle: the epoch floor, then the bundle. -/
def pinBundle (C : Crypto) (t : TrustContext) (b : TrustBundle) (keys : PerKey Str) :
    Prog File TrustContext := do
  let ok ← Prog.writeFile .trustEpoch (decimalInt b.epoch ++ str "\n")
  if !ok then pure t
  else do
    let t := { t with epochFloor := b.epoch }
    let ok ← Prog.writeFile .trustPin b.pinText
    if !ok then pure t
    else
      loadManifestState C
        { t with keys := keys, haveKey := ⟨true, true, true⟩, tenant := b.tenant, epoch := b.epoch }

/-- The checks on a bundle offered to an unpinned host. -/
def acceptBundle (C : Crypto) (t : TrustContext) (b : TrustBundle) (keys : PerKey Str) (sig : Str) :
    Prog File TrustContext :=
  if b.tenant ≠ trustTenant then pure t
  else if b.epoch < t.epochFloor then pure t
  else if 512 ≤ b.statement.length then pure t
  else
    let both := b.statement ++ str "|" ++ sig
    if 800 ≤ both.length then pure t
    else if C.sha256 both = t.failedBundle then pure t
    else
      let der := base64Decode sig 160
      if der = [] ∨ !C.verifyRelease b.statement der then
        pure { t with failedBundle := C.sha256 both }
      else pinBundle C t b keys

def pinKeys (C : Crypto) (t : TrustContext) (obj : Str) : Prog File TrustContext :=
  match readOfferKeys obj with
  | none => pure t
  | some (hex, keys) =>
    if t.pinned then pure t
    else
      match readOfferSignature obj with
      | none => pure t
      | some (tenant, epoch, sig) => acceptBundle C t ⟨tenant, epoch, hex⟩ keys sig

def acceptManifest (C : Crypto) (t : TrustContext) (v : Str) : Prog File TrustContext :=
  match TrustManifest.parse v with
  | none => pure t
  | some m =>
    if (match t.manifest with | some old => decide (m.seq ≤ old.seq) | none => false) then pure t
    else if t.manifestFloored m.seq then pure t
    else if !t.manifestVerify C m then pure t
    else do
      let ok ← Prog.writeFile .manifestState m.json
      if !ok then pure t
      else do
        let (_, t) ← raiseManifestFloor { t with manifest := some m } m.seq
        pure t

/-- The floor a start raised in memory is made durable before anything else is taken. -/
def flushFloors (t : TrustContext) : Prog File TrustContext :=
  if t.mfloorDirty then do
    let ok ← writeFloors t.mfloor
    pure (if ok then { t with mfloorDirty := false } else t)
  else pure t

def heartbeatManifest (C : Crypto) (t : TrustContext) (resp : Str) : Prog File TrustContext :=
  match TJ.found resp (str "capability_manifest") with
  | some v => if t.mfloorDirty then pure t else acceptManifest C t v
  | none => pure t

/-- The trust offer of an answer. -/
def heartbeatPin (C : Crypto) (t : TrustContext) (resp : Str) : Prog File TrustContext :=
  match TJ.found resp (str "trust") with
  | some v => pinKeys C t v
  | none => pure t

def heartbeatRoutine (C : Crypto) (t : TrustContext) (resp : Str) : Prog File TrustContext :=
  match TJ.found resp (str "routine_keys") with
  | some v => acceptRoutineKeys C t v
  | none => pure t

def loadRoutineOnce (C : Crypto) (t : TrustContext) : Prog File TrustContext :=
  if t.routine.loaded then pure t else loadRoutine C t

/-- The part of `Trust_ProcessHeartbeat` that takes keys and manifests. -/
def heartbeatTrust (C : Crypto) (t : TrustContext) (resp : Str) : Prog File TrustContext := do
  let t ← loadRoutineOnce C t
  let t ← heartbeatPin C t resp
  let t ← heartbeatRoutine C t resp
  let t ← flushFloors t
  heartbeatManifest C t resp

/-- Removes a file if it is there; whether it is gone. -/
def removeIfPresent (f : File) : Prog File Bool := do
  let content ← Prog.readFile f
  if content.isNone then pure true
  else do
    let ok ← Prog.removeFile f
    let content ← Prog.readFile f
    pure (ok && content.isNone)

/-- The epoch floor a re-pin writes while there is a pin to revoke: one above the pin, never below
the floor there is. -/
def revokePin (t : TrustContext) : Prog File Bool := do
  let pin ← Prog.readFile .trustPin
  if pin.isNone then pure true
  else
    let next := if t.epochFloor < t.epoch + 1 then t.epoch + 1 else t.epochFloor
    Prog.writeFile .trustEpoch (decimalInt next ++ str "\n")

/-- A floor a start raised in memory must be on disk before the key that verified it goes. -/
def saveDirtyFloors (t : TrustContext) : Prog File Bool :=
  if t.mfloorDirty then writeFloors t.mfloor else pure true

/-- `Trust_Repin`: whether the pinned bundle is gone. -/
def repin (t : TrustContext) : Prog File Bool := do
  let ok ← saveDirtyFloors t
  if !ok then pure false
  else do
    let ok ← revokePin t
    if !ok then pure false
    else do
      let pin ← removeIfPresent .trustPin
      let response ← removeIfPresent .responsePub
      let autoIsolate ← removeIfPresent .autoIsolatePub
      let policy ← removeIfPresent .policyPub
      pure (pin && response && autoIsolate && policy)

end Ominull.Agent
