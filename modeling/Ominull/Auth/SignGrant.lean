import Ominull.Crypto
import Ominull.Response.Canonical

/-! The response authority's sessions, action proofs and the checks of `SignGrant`. -/

namespace Ominull.Auth

open Go Lib Response

inductive AuthMethod where
  | webAuthn
  | totp
  | recovery
  deriving DecidableEq

/-- An operator's unlocked, browser-bound session. -/
structure ResponseSession where
  sessionID : Str
  operatorID : Str
  tenantID : Str
  browserSessionID : Str
  browserPublicKey : Str
  allowedActionKinds : List ActionKind
  issuedAt : Time
  idleExpiresAt : Time
  absoluteExpiresAt : Time
  locked : Bool
  authMethod : AuthMethod
  deriving DecidableEq

/-- Whether a session is active and unlocked. -/
def ResponseSession.isValid (s : ResponseSession) (now : Time) : Bool :=
  !s.locked && !(s.absoluteExpiresAt < now) && !(s.idleExpiresAt < now)

/-- The browser's proof that its operator wants one action. -/
structure ActionProof where
  version : Int
  sessionID : Str
  tenantID : Str
  actionKind : ActionKind
  actionDigest : Str
  targetEndpoints : List Str
  timestamp : Int
  nonce : Str
  signature : Str
  deriving DecidableEq

def proofVersion : Int := 2

namespace ActionProof

def canonicalBytes (p : ActionProof) : Str :=
  frame (str "OMINULL-ACTION-PROOF-V2") ++
    (writeUint32 (if p.version = 0 then proofVersion else p.version) ++ (frame p.sessionID ++
    (frame p.tenantID ++ (frame p.actionKind ++ (writeHexNormalized p.actionDigest ++
    (frames p.targetEndpoints ++ (writeInt64 p.timestamp ++ writeHexNormalized p.nonce)))))))

/-- The proof's fields, time window and signature check out under a browser key. -/
def verify (C : Crypto) (p : ActionProof) (browserPubKey : Str) (now : Time) : Bool :=
  let nowSec := unix now
  p.sessionID ≠ [] && p.tenantID ≠ [] && p.actionDigest ≠ [] &&
    !(nowSec < wrap64 (p.timestamp - 60)) && !(wrap64 (p.timestamp + 300) < nowSec) &&
    match hexDecode p.signature with
    | some sig => sig.length = 64 && C.verify browserPubKey p.canonicalBytes sig
    | none => false

end ActionProof

structure SignGrantRequest where
  tenantID : Str
  operatorID : Str
  sessionID : Str
  endpointID : Str
  actionKind : ActionKind
  actionDigest : Str
  actionPayload : Str
  ttlSeconds : Int
  proof : ActionProof
  deriving DecidableEq

inductive SignError where
  | invalidTenant
  | invalidSession
  | sessionMismatch
  | kindNotPermitted
  | terminalOneByOne
  | screenOneByOne
  | unsupportedKind
  | crossTenant
  | kindMismatch
  | unboundedTargets
  | tooManyTargets
  | endpointNotTarget
  | payloadDigestMismatch
  | payloadProofDigestMismatch
  | digestLength
  | digestEncoding
  | browserKey
  | proofRejected
  | proofDigestMismatch
  | nonceUsed
  | noSigningKey
  deriving DecidableEq

/-- `strings.EqualFold`, for strings one of which is ASCII. -/
def equalFold (s t : Str) : Bool :=
  (runes s).map (fun r => foldRune r.char) = (runes t).map (fun r => foldRune r.char)

theorem ite_some_eq_none {α : Type} {p : Prop} [Decidable p] {e : α} {x : Option α} :
    (if p then some e else x) = none ↔ ¬p ∧ x = none := by
  by_cases hp : p <;> simp [hp]

/-- The digest checks: against the payload when it came along, else on the digest's form alone. -/
def checkDigest (C : Crypto) (req : SignGrantRequest) : Option SignError :=
  if req.actionPayload ≠ [] then
    let computed := hexEncode (C.sha256 req.actionPayload)
    if !equalFold computed req.actionDigest then some .payloadDigestMismatch
    else if !equalFold computed req.proof.actionDigest then some .payloadProofDigestMismatch
    else none
  else if req.actionDigest.length ≠ 64 then some .digestLength
  else if (hexDecode req.actionDigest).isNone then some .digestEncoding
  else none

/-- The checks on the request and its proof that do not look at the browser key. -/
def checkBinding (req : SignGrantRequest) (session : ResponseSession) : Option SignError :=
  if session.tenantID ≠ req.tenantID ∨ session.operatorID ≠ req.operatorID then
    some .sessionMismatch
  else if req.actionKind ∉ session.allowedActionKinds then some .kindNotPermitted
  else if req.actionKind = actionKindTerminalSession then some .terminalOneByOne
  else if req.actionKind = actionKindScreenSession then some .screenOneByOne
  else if req.actionKind ≠ actionKindForensicCollect ∧ req.actionKind ≠ actionKindScriptExec then
    some .unsupportedKind
  else if req.proof.tenantID ≠ req.tenantID then some .crossTenant
  else if req.proof.actionKind ≠ req.actionKind then some .kindMismatch
  else if req.proof.targetEndpoints = [] then some .unboundedTargets
  else if 1000 < req.proof.targetEndpoints.length then some .tooManyTargets
  else if req.endpointID ∉ req.proof.targetEndpoints then some .endpointNotTarget
  else none

def checkProof (C : Crypto) (now : Time) (req : SignGrantRequest) (session : ResponseSession) :
    Option SignError :=
  match hexDecode session.browserPublicKey with
  | none => some .browserKey
  | some key =>
    -- `ed25519.Verify` panics on a key of another length, which ends the request
    if key.length ≠ 32 then some .browserKey
    else if !req.proof.verify C key now then some .proofRejected
    else if !equalFold req.proof.actionDigest req.actionDigest then some .proofDigestMismatch
    else none

/-- Everything `SignGrant` checks before it records the proof's nonce, given the session row it
read. -/
def checkRequest (C : Crypto) (now : Time) (req : SignGrantRequest)
    (session : Option ResponseSession) : Except SignError ResponseSession :=
  -- a tenant id with '#' (0x23) is refused
  if 0x23 ∈ req.tenantID then .error .invalidTenant
  else
    match session with
    | none => .error .invalidSession
    | some session =>
      if !session.isValid now then .error .invalidSession
      else
        match ((checkBinding req session).or (checkDigest C req)).or
            (checkProof C now req session) with
        | some e => .error e
        | none => .ok session

theorem checkRequest_ok {C : Crypto} {now : Time} {req : SignGrantRequest}
    {row : Option ResponseSession} {session : ResponseSession}
    (h : checkRequest C now req row = .ok session) :
    row = some session ∧ session.isValid now = true ∧ checkBinding req session = none ∧
      checkDigest C req = none ∧ checkProof C now req session = none := by
  unfold checkRequest at h
  split_ifs at h
  cases row with
  | none => cases h
  | some r =>
    simp only at h
    split_ifs at h with hvalid
    split at h
    case h_1 => cases h
    case h_2 hnone =>
      cases h
      simp only [Option.or_eq_none_iff] at hnone
      exact ⟨rfl, by simpa using hvalid, hnone.1.1, hnone.1.2, hnone.2⟩

theorem checkBinding_proof_tenantID {req : SignGrantRequest} {session : ResponseSession}
    (h : checkBinding req session = none) : req.proof.tenantID = req.tenantID := by
  iterate 5 replace h := (ite_some_eq_none.mp h).2
  exact not_not.mp (ite_some_eq_none.mp h).1

def proofNonceKey (req : SignGrantRequest) : Str :=
  str "proof:" ++ req.tenantID ++ str ":" ++ req.proof.nonce

def SignGrantRequest.ttl (req : SignGrantRequest) : Int :=
  if req.ttlSeconds ≤ 0 ∨ 3600 < req.ttlSeconds then 300 else req.ttlSeconds

/-- The signed grant, with the random id and nonce drawn for it. -/
def makeGrant (C : Crypto) (privKey : Str) (now : Time) (req : SignGrantRequest)
    (session : ResponseSession) (grantID nonce : Str) : EndpointGrant :=
  let grant : EndpointGrant :=
    { version := grantVersion, grantID := grantID, tenantID := req.tenantID,
      endpointID := req.endpointID, actionKind := req.actionKind, actionDigest := req.actionDigest,
      operatorID := req.operatorID, responseSessionID := session.sessionID,
      issuedAt := unix now, expiresAt := unix now + req.ttl, nonce := hexEncode nonce,
      signerKeyID := hexEncode (C.sha256 (C.publicKey privKey)) }
  { grant with signature := hexEncode (C.sign privKey grant.canonicalBytes) }

end Ominull.Auth
