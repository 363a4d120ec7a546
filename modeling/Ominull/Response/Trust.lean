import Ominull.Crypto
import Ominull.Response.Canonical
import Mathlib.Data.List.Sort

/-! Capability profiles, and the manifests that say what one endpoint may be asked to do. -/

namespace Ominull.Response

open Go Lib

def capUpdate : Str := str "update"
def capIsolate : Str := str "isolate"
def capMesh : Str := str "mesh"
def capCollect : Str := str "collect"
def capTerminal : Str := str "terminal"
def capScript : Str := str "script"
def capScreen : Str := str "screen"

def profileTable (profile : Str) : Option (List Str) :=
  if profile = str "monitor" then some [capUpdate]
  else if profile = str "monitor-scripts" then some [capCollect, capScript, capUpdate]
  else if profile = str "respond" then
    some [capCollect, capIsolate, capMesh, capScreen, capTerminal, capUpdate]
  else if profile = str "engagement" then
    some [capCollect, capIsolate, capMesh, capScreen, capScript, capTerminal, capUpdate]
  else none

def sortStrings (l : List Str) : List Str := l.insertionSort fun a b => ¬b < a

def profileCaps (profile : Str) : Option (List Str) := (profileTable profile).map sortStrings

def profileHas (profile capability : Str) : Bool := capability ∈ (profileTable profile).getD []

/-- Whether moving from one profile to another only takes capabilities away. -/
def profileNarrows (source target : Str) : Bool :=
  match profileTable source, profileTable target with
  | some f, some t => t.length < f.length && t.all (profileHas source)
  | _, _ => false

/-- What one endpoint may be asked to do, signed by the tenant's policy key. -/
structure CapabilityManifest where
  v : Int
  tenantID : Str
  endpointID : Str
  profile : Str
  caps : List Str
  seq : Int
  issuedAt : Int
  signerKeyID : Str
  signature : Str
  deriving DecidableEq

namespace CapabilityManifest

def canonicalBytes (m : CapabilityManifest) : Str :=
  frame (str "OMINULL-CAPABILITY-MANIFEST-V1") ++ (writeUint32 m.v ++ (frame m.tenantID ++
    (frame m.endpointID ++ (frame m.profile ++ (frames m.caps ++ (writeInt64 m.seq ++
    (writeInt64 m.issuedAt ++ writeHexNormalized m.signerKeyID)))))))

/-- Whether the manifest holds exactly what its profile holds in this release. -/
def matchesProfile (m : CapabilityManifest) : Bool :=
  match profileCaps m.profile with
  | some caps => sortStrings m.caps = caps
  | none => false

def sign (C : Crypto) (key : Str) (m : CapabilityManifest) : CapabilityManifest :=
  let m := { m with signerKeyID := hexEncode (C.sha256 (C.publicKey key)) }
  { m with signature := hexEncode (C.sign key m.canonicalBytes) }

end CapabilityManifest

theorem profileCaps_eq (profile : Str) : profileCaps profile = profileTable profile := by
  unfold profileCaps profileTable
  split_ifs
  · decide
  · decide
  · decide
  · decide
  · rfl

def capsOf (profile : Str) : List Str := (profileTable profile).getD []

/-- A move that narrows leaves only capabilities that were there. -/
theorem capsOf_subset_of_narrows {source target : Str} (h : profileNarrows source target = true) :
    capsOf target ⊆ capsOf source := by
  unfold profileNarrows at h
  split at h
  case h_1 f t hf ht =>
    simp only [Bool.and_eq_true, List.all_eq_true] at h
    intro c hc
    rw [capsOf, ht] at hc
    have hhas := h.2 c hc
    simpa [profileHas, capsOf] using hhas
  case h_2 => cases h

end Ominull.Response
