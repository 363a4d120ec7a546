import Ominull.Agent.Context

/-! The host authority files: keys and packages an administrator pins on the host itself. -/

namespace Ominull.Agent

open Lib

def isHex64 (s : Str) : Bool := s.length = 64 && s.all isHexDigit

def hexKey (hex : Str) : Option Str := if isHex64 hex then hexToBytes hex 32 else none

def maxHostKeys : ℕ := 4

def maxHostAllow : ℕ := 16

def maxHostModes : ℕ := 4

/-- `Trust_HostKeyElement`: the id must be the key's fingerprint, and no id occurs twice. -/
def hostKeyElement (C : Crypto) (before : List TrustHostKey) (v : Str) : Option TrustHostKey := do
  let id ← (TJ.memberPlain v (str "id") 65).filter isHex64
  let role ← TJ.memberPlain v (str "role") 8
  let autoRole ← if role = str "tap" then some false
    else if role = str "auto" then some true
    else none
  let key ← (TJ.memberPlain v (str "ed25519") 80).bind hexKey
  let id := lower id
  if !equalsIgnoreCase (sha256Hex C key) id then none
  else if before.any fun k => k.id = id then none
  else some ⟨id, key, autoRole⟩

def isHostMode (m : Str) : Bool :=
  m ≠ [] && m.length < 16 && m.all fun b => isLower b || b = 0x5f || b = 0x2d

def hostAllowElement (v : Str) : Option TrustHostAllow := do
  let name ← (TJ.memberPlain v (str "name") 64).filter (· ≠ [])
  let sha256 ← (TJ.memberPlain v (str "sha256") 65).filter isHex64
  let modes ← (TJ.found v (str "modes")).bind (TJ.plainArray maxHostModes)
  if modes = [] || !modes.all isHostMode then none
  else some ⟨name, lower sha256, modes⟩

def hostVersion1 (doc : Str) : Bool := TJ.memberInt doc (str "v") = some 1

/-- The pinned keys of `host_authority.json`; none when it is unreadable, malformed or empty. -/
def hostKeysOf (C : Crypto) (content : Option Str) : List TrustHostKey :=
  match (readSmall 8192 content).filter hostVersion1 with
  | none => []
  | some doc =>
    ((TJ.found doc (str "keys")).bind (TJ.eachElement maxHostKeys (hostKeyElement C))).getD []

def hostAllowOf (content : Option Str) : List TrustHostAllow :=
  match (readSmall 8192 content).filter hostVersion1 with
  | none => []
  | some doc =>
    ((TJ.found doc (str "packages")).bind
      (TJ.eachElement maxHostAllow fun _ => hostAllowElement)).getD []

def loadHostAuthority (C : Crypto) (t : TrustContext) : Prog File TrustContext := do
  let file ← Prog.readFile .hostAuthority
  let hostKeys := hostKeysOf C file
  let t := { t with hostPresent := file.isSome, hostKeys := hostKeys, hostAllow := [] }
  if hostKeys = [] then pure t
  else do
    let file ← Prog.readFile .hostAutoAllow
    pure { t with hostAllow := hostAllowOf file }

end Ominull.Agent
