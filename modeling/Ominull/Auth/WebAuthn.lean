import Ominull.Auth.Authenticator
import Ominull.Go.Base64
import Ominull.Go.Url

/-! The WebAuthn manager: pending challenges, origins, registrations and assertions. -/

namespace Ominull.Auth

open Go Lib Response List

structure WebAuthnRPConfig where
  rpID : Str
  allowedOrigins : List Str

def WebAuthnRPConfig.authority : WebAuthnRPConfig where
  rpID := str "localhost"
  allowedOrigins := [str "http://localhost:9999", str "https://localhost:9999",
    str "https://ominull.example.invalid:8443", str "https://localhost:8443"]

/-- The checks of the two signature schemes that rest on X.509 keys, over key bytes, digest and signature. -/
structure KeySchemes where
  es256 : Str → Str → Str → Bool
  rs256 : Str → Str → Str → Bool

inductive WebAuthnError where
  | missingFields
  | badBase64
  | malformedClientData
  | unexpectedType
  | challengeMismatch
  | originMismatch
  | tooShort
  | rpIDMismatch
  | userNotPresent
  | cloned
  | signatureInvalid
  deriving DecidableEq

/-! ## Challenges -/

inductive ChallengeKind where
  | create
  | get
  deriving DecidableEq

structure PendingChallenge where
  tenantID : Str
  operator : Str
  kind : ChallengeKind
  expiresAt : Time
  deriving DecidableEq

/-- A challenge, whom and what it is for, and when: at its issue or at its acceptance. -/
structure ChallengeUse where
  challenge : Str
  tenantID : Str
  operator : Str
  kind : ChallengeKind
  time : Time
  deriving DecidableEq

/-- The pending challenges, and the record of those issued and accepted so far. -/
structure WebAuthnManager where
  challenges : Str → Option PendingChallenge
  issued : List ChallengeUse
  accepted : List ChallengeUse

def challengeTTL : Time := 300 * 1000000000

namespace WebAuthnManager

def init : WebAuthnManager := ⟨fun _ => none, [], []⟩

/-- `GenerateChallenge`, given the random challenge: expired ones are dropped first. -/
def generateChallenge (m : WebAuthnManager) (use : ChallengeUse) : WebAuthnManager where
  challenges := Function.update (fun k => (m.challenges k).filter fun p => ¬p.expiresAt < use.time) use.challenge
    (some ⟨use.tenantID, use.operator, use.kind, use.time + challengeTTL⟩)
  issued := use :: m.issued
  accepted := m.accepted

def forget (m : WebAuthnManager) (ch : Str) : WebAuthnManager :=
  { m with challenges := Function.update m.challenges ch none }

/-- `ConsumeChallenge`: the challenge is gone whether or not it is accepted. -/
def consumeChallenge (m : WebAuthnManager) (use : ChallengeUse) : Bool × WebAuthnManager :=
  match m.challenges use.challenge with
  | none => (false, m)
  | some p =>
    if p.expiresAt < use.time ∨ p.tenantID ≠ use.tenantID ∨ p.operator ≠ use.operator ∨ p.kind ≠ use.kind then
      (false, m.forget use.challenge)
    else (true, { m.forget use.challenge with accepted := use :: m.accepted })

theorem challenges_generateChallenge (m : WebAuthnManager) (use : ChallengeUse) (ch : Str) :
    (m.generateChallenge use).challenges ch =
      if ch = use.challenge then some ⟨use.tenantID, use.operator, use.kind, use.time + challengeTTL⟩
      else (m.challenges ch).filter fun p => ¬p.expiresAt < use.time := by
  simp only [generateChallenge, Function.update_apply]

theorem challenges_forget (m : WebAuthnManager) (ch k : Str) :
    (m.forget ch).challenges k = if k = ch then none else m.challenges k :=
  Function.update_apply ..

end WebAuthnManager

/-! ## Client data and origins -/

structure ClientData where
  type : Str := []
  challenge : Str := []
  origin : Str := []
  crossOrigin : Bool := false
  deriving DecidableEq

namespace ClientData

def fields : List (Go.Field ClientData) :=
  [⟨ascii "type", fun v c => (decodeString v c.type).map fun x => { c with type := x }⟩,
   ⟨ascii "challenge", fun v c => (decodeString v c.challenge).map fun x => { c with challenge := x }⟩,
   ⟨ascii "origin", fun v c => (decodeString v c.origin).map fun x => { c with origin := x }⟩,
   ⟨ascii "crossOrigin", fun v c => (decodeBool v c.crossOrigin).map fun x => { c with crossOrigin := x }⟩]

def unmarshal (s : Str) : Option ClientData := (parse s).bind fun v => decodeStruct fields v {}

end ClientData

/-- Base64 as requests carry it: the URL alphabet without padding, or the standard one with it. -/
def decodeBase64 (s : Str) : Option Str := rawURLDecode s <|> stdDecode s

/-- An origin as origins are compared: `strings.TrimRight(strings.ToLower(origin), "/")`. -/
def normalizeOrigin (origin : Str) : Str := (toLower origin).rdropWhile (· = 0x2f)

/-- The test by which origins of a development host pass. -/
def startsLocalhost (origin : Str) : Bool :=
  (str "http://localhost").isPrefixOf origin || (str "https://localhost").isPrefixOf origin

/-- `validateOrigin`. The test for localhost stands in the loop, so it needs an allowed origin to be
reached. -/
def validateOrigin (cfg : WebAuthnRPConfig) (origin : Str) : Bool :=
  cfg.allowedOrigins.any fun allowed =>
    normalizeOrigin origin = normalizeOrigin allowed || startsLocalhost (normalizeOrigin origin)

/-- The relying-party hash is that of the configured id, or of the origin's host. -/
def rpHashMatches (cfg : WebAuthnRPConfig) (C : Crypto) (origin rpHash : Str) : Bool :=
  rpHash = C.sha256 cfg.rpID ||
    match urlHostname origin with
    | some host => rpHash = C.sha256 host
    | none => false

/-! ## Registrations -/

structure WebAuthnRegistrationRequest where
  tenantID : Str
  operatorID : Str
  credentialID : Str
  clientDataJSON : Str
  publicKeyPEM : Str
  keyType : Str

/-- `VerifyRegistration`. The challenge is consumed before the origin is looked at. -/
def verifyRegistration (cfg : WebAuthnRPConfig) (m : WebAuthnManager) (now : Time)
    (req : WebAuthnRegistrationRequest) : Except WebAuthnError StoredWebAuthnCredential × WebAuthnManager :=
  if req.credentialID = [] ∨ req.clientDataJSON = [] then (.error .missingFields, m)
  else
    match decodeBase64 req.clientDataJSON with
    | none => (.error .badBase64, m)
    | some raw =>
      match ClientData.unmarshal raw with
      | none => (.error .malformedClientData, m)
      | some cd =>
        if cd.type ≠ str "webauthn.create" then (.error .unexpectedType, m)
        else
          let consumed := m.consumeChallenge ⟨cd.challenge, req.tenantID, req.operatorID, .create, now⟩
          if !consumed.1 then (.error .challengeMismatch, consumed.2)
          else if !validateOrigin cfg cd.origin then (.error .originMismatch, consumed.2)
          else
            (.ok
              { credentialID := req.credentialID
                keyType := if req.keyType = [] then str "ES256" else req.keyType
                publicKeyPEM := req.publicKeyPEM }, consumed.2)

/-! ## Assertions -/

structure WebAuthnAuthenticationRequest where
  tenantID : Str
  operatorID : Str
  browserSessionID : Str
  browserPublicKey : Str
  credentialID : Str
  clientDataJSON : Str
  authenticatorData : Str
  signature : Str

def verifyWebAuthnSignature (C : Crypto) (V : KeySchemes) (stored : StoredWebAuthnCredential)
    (signedData sig : Str) : Bool :=
  let pubBytes := (hexDecode stored.publicKeyPEM).getD stored.publicKeyPEM
  if stored.keyType = str "Ed25519" then pubBytes.length = 32 && C.verify pubBytes signedData sig
  else if stored.keyType = str "ES256" then V.es256 pubBytes (C.sha256 signedData) sig
  else if stored.keyType = str "RS256" then V.rs256 pubBytes (C.sha256 signedData) sig
  else false

/-- `binary.BigEndian.Uint32` of bytes 33 to 36 of the authenticator data. -/
def signCountOf (authData : Str) : ℕ := ((authData.drop 33).take 4).foldl (fun n b => 256 * n + b.toNat) 0

/-- `VerifyAssertion` behind the challenge: origin, authenticator data, counter and signature. -/
def checkAssertion (cfg : WebAuthnRPConfig) (C : Crypto) (V : KeySchemes) (req : WebAuthnAuthenticationRequest)
    (stored : StoredWebAuthnCredential) (raw : Str) (cd : ClientData) :
    Except WebAuthnError StoredWebAuthnCredential :=
  if !validateOrigin cfg cd.origin then .error .originMismatch
  else
    match decodeBase64 req.authenticatorData with
    | none => .error .badBase64
    | some authData =>
      if authData.length < 37 then .error .tooShort
      else if !rpHashMatches cfg C cd.origin (authData.take 32) then .error .rpIDMismatch
      else if (authData.getD 32 0) &&& 1 = 0 then .error .userNotPresent
      else
        let signCount := signCountOf authData
        if 0 < signCount ∧ 0 < stored.signCount ∧ signCount ≤ stored.signCount then .error .cloned
        else
          let stored := { stored with signCount := signCount }
          match decodeBase64 req.signature with
          | none => .error .badBase64
          | some sig =>
            if verifyWebAuthnSignature C V stored (authData ++ C.sha256 raw) sig then .ok stored
            else .error .signatureInvalid

def WebAuthnAuthenticationRequest.clientData (req : WebAuthnAuthenticationRequest) :
    Except WebAuthnError (Str × ClientData) :=
  match decodeBase64 req.clientDataJSON with
  | none => .error .badBase64
  | some raw =>
    match ClientData.unmarshal raw with
    | none => .error .malformedClientData
    | some cd => if cd.type ≠ str "webauthn.get" then .error .unexpectedType else .ok (raw, cd)

/-- `VerifyAssertion`: the credential with its new counter. -/
def verifyAssertion (cfg : WebAuthnRPConfig) (C : Crypto) (V : KeySchemes) (m : WebAuthnManager)
    (now : Time) (req : WebAuthnAuthenticationRequest) (stored : StoredWebAuthnCredential) :
    Except WebAuthnError StoredWebAuthnCredential × WebAuthnManager :=
  if req.credentialID = [] ∨ req.clientDataJSON = [] ∨ req.authenticatorData = [] ∨ req.signature = [] then
    (.error .missingFields, m)
  else
    match req.clientData with
    | .error e => (.error e, m)
    | .ok (raw, cd) =>
      let consumed := m.consumeChallenge ⟨cd.challenge, req.tenantID, req.operatorID, .get, now⟩
      if !consumed.1 then (.error .challengeMismatch, consumed.2)
      else (checkAssertion cfg C V req stored raw cd, consumed.2)

/-! ## What the manager keeps -/

/-- A challenge that is pending was issued for what it is pending for and has not been accepted; one that
was accepted was so once, in time and for what it was issued for. -/
structure WebAuthnManager.Sound (m : WebAuthnManager) : Prop where
  pending : ∀ ch p, m.challenges ch = some p →
    (∃ u ∈ m.issued, u.challenge = ch ∧ p = ⟨u.tenantID, u.operator, u.kind, u.time + challengeTTL⟩) ∧
      ∀ a ∈ m.accepted, a.challenge ≠ ch
  once : (m.accepted.map ChallengeUse.challenge).Nodup
  accepted : ∀ a ∈ m.accepted, ∃ u ∈ m.issued, u.challenge = a.challenge ∧ u.tenantID = a.tenantID ∧
    u.operator = a.operator ∧ u.kind = a.kind ∧ a.time ≤ u.time + challengeTTL

namespace WebAuthnManager

variable {m : WebAuthnManager} {use : ChallengeUse}

theorem sound_init : init.Sound where
  pending _ _ h := by cases h
  once := nodup_nil
  accepted a ha := by cases ha

theorem Sound.generateChallenge (h : m.Sound) (hfresh : use.challenge ∉ m.issued.map ChallengeUse.challenge) :
    (m.generateChallenge use).Sound where
  pending ch p hp := by
    rw [challenges_generateChallenge] at hp
    split at hp
    case isTrue hch =>
      cases hp
      refine ⟨⟨use, mem_cons_self, hch.symm, rfl⟩, ?_⟩
      -- what was accepted was issued before
      intro a ha heq
      obtain ⟨u, hu, hchallenge, -⟩ := h.accepted a ha
      exact hfresh (mem_map.mpr ⟨u, hu, (hchallenge.trans heq).trans hch⟩)
    case isFalse =>
      obtain ⟨⟨u, hu, hissue⟩, haccepted⟩ := h.pending ch p (Option.filter_eq_some_iff.mp hp).1
      exact ⟨⟨u, mem_cons_of_mem _ hu, hissue⟩, haccepted⟩
  once := h.once
  accepted a ha := by
    obtain ⟨u, hu, huse⟩ := h.accepted a ha
    exact ⟨u, mem_cons_of_mem _ hu, huse⟩

theorem pending_of_forget {ch k : Str} {p : PendingChallenge} (hp : (m.forget ch).challenges k = some p) :
    k ≠ ch ∧ m.challenges k = some p := by
  rw [challenges_forget] at hp
  split at hp
  case isTrue => cases hp
  case isFalse hk => exact ⟨hk, hp⟩

theorem Sound.forget (h : m.Sound) (ch : Str) : (m.forget ch).Sound where
  pending k p hp := h.pending k p (pending_of_forget hp).2
  once := h.once
  accepted := h.accepted

theorem Sound.consumeChallenge (h : m.Sound) : (m.consumeChallenge use).2.Sound := by
  unfold WebAuthnManager.consumeChallenge
  split
  · exact h
  case h_2 p hp =>
    obtain ⟨⟨u, hu, hchallenge, rfl⟩, hfresh⟩ := h.pending _ p hp
    split
    · exact h.forget _
    case isFalse hok =>
      simp only [not_or, ne_eq, Decidable.not_not] at hok
      obtain ⟨htime, htenant, hoperator, hkind⟩ := hok
      constructor
      · intro k q hq
        obtain ⟨hne, hq⟩ := pending_of_forget hq
        obtain ⟨hissued, haccepted⟩ := h.pending k q hq
        exact ⟨hissued, forall_mem_cons.mpr ⟨Ne.symm hne, haccepted⟩⟩
      · refine nodup_cons.mpr ⟨?_, h.once⟩
        intro hmem
        obtain ⟨a, ha, heq⟩ := mem_map.mp hmem
        exact hfresh a ha heq
      · exact forall_mem_cons.mpr
          ⟨⟨u, hu, hchallenge, htenant, hoperator, hkind, Int.not_lt.mp htime⟩, h.accepted⟩

theorem consumeChallenge_true (h : (m.consumeChallenge use).1 = true) : use ∈ (m.consumeChallenge use).2.accepted := by
  unfold WebAuthnManager.consumeChallenge at h ⊢
  split at h
  · cases h
  · split at h
    · cases h
    case isFalse hok =>
      rw [if_neg hok]
      exact mem_cons_self

theorem accepted_consumeChallenge {a : ChallengeUse} (h : a ∈ m.accepted) : a ∈ (m.consumeChallenge use).2.accepted := by
  unfold WebAuthnManager.consumeChallenge
  split
  · exact h
  · split
    · exact h
    · exact mem_cons_of_mem _ h

end WebAuthnManager

/-! ## What an accepted assertion says -/

theorem verifyRegistration_manager (cfg : WebAuthnRPConfig) (m : WebAuthnManager) (now : Time)
    (req : WebAuthnRegistrationRequest) :
    (verifyRegistration cfg m now req).2 = m ∨
      ∃ use, (verifyRegistration cfg m now req).2 = (m.consumeChallenge use).2 := by
  unfold verifyRegistration
  split
  · exact .inl rfl
  · split
    · exact .inl rfl
    · split
      · exact .inl rfl
      · split
        · exact .inl rfl
        · dsimp only
          split
          · exact .inr ⟨_, rfl⟩
          · split
            · exact .inr ⟨_, rfl⟩
            · exact .inr ⟨_, rfl⟩

section Assertion

variable {cfg : WebAuthnRPConfig} {C : Crypto} {V : KeySchemes} {m : WebAuthnManager} {now : Time}
  {req : WebAuthnAuthenticationRequest} {stored cred : StoredWebAuthnCredential}

theorem verifyAssertion_manager (cfg : WebAuthnRPConfig) (C : Crypto) (V : KeySchemes) (m : WebAuthnManager)
    (now : Time) (req : WebAuthnAuthenticationRequest) (stored : StoredWebAuthnCredential) :
    (verifyAssertion cfg C V m now req stored).2 = m ∨
      ∃ use, (verifyAssertion cfg C V m now req stored).2 = (m.consumeChallenge use).2 := by
  unfold verifyAssertion
  split
  · exact .inl rfl
  · split
    · exact .inl rfl
    · dsimp only
      split
      · exact .inr ⟨_, rfl⟩
      · exact .inr ⟨_, rfl⟩

/-- What is checked of an assertion that passes. -/
structure Checked (cfg : WebAuthnRPConfig) (C : Crypto) (V : KeySchemes) (req : WebAuthnAuthenticationRequest)
    (stored : StoredWebAuthnCredential) (raw : Str) (cd : ClientData) (authData : Str) : Prop where
  decoded : decodeBase64 req.authenticatorData = some authData
  origin : validateOrigin cfg cd.origin = true
  length : 37 ≤ authData.length
  rpHash : rpHashMatches cfg C cd.origin (authData.take 32) = true
  present : (authData.getD 32 0) &&& 1 ≠ 0
  signCount : ¬(0 < signCountOf authData ∧ 0 < stored.signCount ∧ signCountOf authData ≤ stored.signCount)
  signature : ∃ sig, decodeBase64 req.signature = some sig ∧
    verifyWebAuthnSignature C V stored (authData ++ C.sha256 raw) sig = true

theorem checkAssertion_ok {raw : Str} {cd : ClientData} (h : checkAssertion cfg C V req stored raw cd = .ok cred) :
    ∃ authData, Checked cfg C V req stored raw cd authData ∧
      cred = { stored with signCount := signCountOf authData } := by
  unfold checkAssertion at h
  split at h
  · cases h
  case isFalse horigin =>
    split at h
    · cases h
    case h_2 authData hauthData =>
      split at h
      · cases h
      case isFalse hlength =>
        split at h
        · cases h
        case isFalse hrpHash =>
          split at h
          · cases h
          case isFalse hpresent =>
            dsimp only at h
            split at h
            · cases h
            case isFalse hcount =>
              split at h
              · cases h
              case h_2 sig hsig =>
                split at h
                case isTrue hverify =>
                  cases h
                  exact ⟨authData, ⟨hauthData, by simpa using horigin, by omega, by simpa using hrpHash, hpresent,
                    hcount, sig, hsig, hverify⟩, rfl⟩
                case isFalse => cases h

theorem verifyAssertion_ok {m' : WebAuthnManager} (h : verifyAssertion cfg C V m now req stored = (.ok cred, m')) :
    ∃ raw cd authData, req.clientData = .ok (raw, cd) ∧
      ⟨cd.challenge, req.tenantID, req.operatorID, .get, now⟩ ∈ m'.accepted ∧
      Checked cfg C V req stored raw cd authData ∧ cred = { stored with signCount := signCountOf authData } := by
  unfold verifyAssertion at h
  split at h
  · cases h
  · split at h
    · cases h
    case h_2 raw cd hcd =>
      dsimp only at h
      split at h
      · cases h
      case isFalse hconsumed =>
        obtain ⟨hcheck, hm'⟩ := Prod.mk.inj h
        obtain ⟨authData, hchecked, hcred⟩ := checkAssertion_ok hcheck
        refine ⟨raw, cd, authData, hcd, ?_, hchecked, hcred⟩
        rw [← hm']
        exact WebAuthnManager.consumeChallenge_true (by simpa using hconsumed)

end Assertion

end Ominull.Auth
