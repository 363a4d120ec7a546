import Ominull.Auth.WebAuthn
import Ominull.Lib.Run
import Ominull.Lib.Threads

/-!
WebAuthn unlock requests side by side. Each read of the authenticators and each write of one is a step of
its own; so is the check of an assertion, which the manager's lock makes atomic where it matters.
-/

namespace Ominull.Auth.WebAuthn

open Go Lib Response

/-- An assertion that has been accepted: the request's clock reading, the row as it was read, the
credential with its new counter, and how many sessions had been opened when its verification began. -/
structure Verified where
  now : Time
  row : AuthenticatorRecord
  cred : StoredWebAuthnCredential
  openedBefore : ℕ
  deriving DecidableEq

inductive Phase where
  | called
  | matched (now : Time) (row : AuthenticatorRecord) (cred : StoredWebAuthnCredential)
  | verified (v : Verified)
  | saved (v : Verified)
  | opened
  | refused
  deriving DecidableEq

def Phase.pendingRow : Phase → Option AuthenticatorRecord
  | .matched _ row _ => some row
  | .verified v => some v.row
  | _ => none

/-- The assertion a call has passed with and not yet opened its session on. -/
def Phase.passed : Phase → Option Verified
  | .verified v | .saved v => some v
  | _ => none

structure Opened where
  req : WebAuthnAuthenticationRequest
  session : ResponseSession
  verified : Verified

structure State where
  manager : WebAuthnManager
  authenticators : Authenticators
  calls : Threads WebAuthnAuthenticationRequest Phase
  opened : List Opened

def State.init (T : Authenticators) : State := ⟨.init, T, Table.empty, []⟩

inductive Event where
  /-- A challenge is handed out. -/
  | challenge (use : ChallengeUse)
  /-- `FinishWebAuthnRegistration`, with the id of the new row. -/
  | register (req : WebAuthnRegistrationRequest) (now : Time) (id : Str)
  /-- A call of `FinishWebAuthnAuthentication`. -/
  | request (i : ℕ) (req : WebAuthnAuthenticationRequest)
  | list (i : ℕ) (now : Time)
  | verify (i : ℕ) (now : Time)
  | save (i : ℕ)
  | saveFailed (i : ℕ)
  | openSession (i : ℕ) (sessionID : Str) (idleTTL sessionTTL : Time)

def findCredential (rows : List AuthenticatorRecord) (credentialID : Str) :
    Option (AuthenticatorRecord × StoredWebAuthnCredential) :=
  rows.findSome? fun row =>
    if row.type = .webAuthn ∧ row.status = .active then
      match StoredWebAuthnCredential.unmarshal row.secretOrKey with
      | some cred => if cred.credentialID = credentialID then some (row, cred) else none
      | none => none
    else none

/-- What the reads of a call bring it to. -/
def matchCall (T : Authenticators) (req : WebAuthnAuthenticationRequest) (now : Time) : Phase :=
  match findCredential (T.list req.tenantID req.operatorID) req.credentialID with
  | none => .refused
  | some (row, cred) => if validBrowserKey req.browserPublicKey then .matched now row cred else .refused

def newSession (req : WebAuthnAuthenticationRequest) (now : Time) (sessionID : Str) (idleTTL sessionTTL : Time) :
    ResponseSession :=
  unlockedSession .webAuthn req.tenantID req.operatorID req.browserSessionID req.browserPublicKey now sessionID
    idleTTL sessionTTL

section Step

variable (cfg : WebAuthnRPConfig) (C : Crypto) (V : KeySchemes)

/-- `FinishWebAuthnRegistration`: a registration that passes is saved in a new row. -/
def register (s : State) (req : WebAuthnRegistrationRequest) (now : Time) (id : Str) : State :=
  let r := verifyRegistration cfg s.manager now req
  match r.1 with
  | .error _ => { s with manager := r.2 }
  | .ok cred =>
    { s with
      manager := r.2
      authenticators := s.authenticators.save
        { id := id, operatorID := req.operatorID, tenantID := req.tenantID, type := .webAuthn,
          secretOrKey := cred.marshal } }

/-- `VerifyAssertion` in a call that began at `start`, at the clock reading `now`. -/
def verify (s : State) (i : ℕ) (req : WebAuthnAuthenticationRequest) (start now : Time) (row : AuthenticatorRecord)
    (cred : StoredWebAuthnCredential) : State :=
  let r := verifyAssertion cfg C V s.manager now req cred
  { s with
    manager := r.2
    calls := s.calls.move i
      (match r.1 with
      | .error _ => .refused
      | .ok cred => .verified ⟨start, row, cred, s.opened.length⟩) }

def openSession (s : State) (i : ℕ) (req : WebAuthnAuthenticationRequest) (v : Verified) (sessionID : Str)
    (idleTTL sessionTTL : Time) : State :=
  { s with
    calls := s.calls.move i .opened
    opened := s.opened ++ [⟨req, newSession req v.now sessionID idleTTL sessionTTL, v⟩] }

def step (s : State) : Event → Option State
  | .challenge use => some { s with manager := s.manager.generateChallenge use }
  | .register req now id =>
    if (s.authenticators.find id).isSome then none else some (register cfg s req now id)
  | .request i req => (s.calls.start i req .called).map fun calls => { s with calls := calls }
  | .list i now =>
    match s.calls.find i with
    | some ⟨_, req, .called⟩ => some { s with calls := s.calls.move i (matchCall s.authenticators req now) }
    | _ => none
  | .verify i now =>
    match s.calls.find i with
    | some ⟨_, req, .matched start row cred⟩ =>
      some (verify cfg C V s i req start now row cred)
    | _ => none
  | .save i =>
    match s.calls.find i with
    | some ⟨_, _, .verified v⟩ =>
      some { s with
        authenticators := s.authenticators.save { v.row with secretOrKey := v.cred.marshal }
        calls := s.calls.move i (.saved v) }
    | _ => none
  | .saveFailed i =>
    match s.calls.find i with
    | some ⟨_, _, .verified v⟩ => some { s with calls := s.calls.move i (.saved v) }
    | _ => none
  | .openSession i sessionID idleTTL sessionTTL =>
    match s.calls.find i with
    | some ⟨_, req, .saved v⟩ =>
      some (openSession s i req v sessionID idleTTL sessionTTL)
    | _ => none

inductive Takes (s : State) : Event → State → Prop where
  | challenge (use : ChallengeUse) :
      Takes s (.challenge use) { s with manager := s.manager.generateChallenge use }
  | register (req : WebAuthnRegistrationRequest) (now : Time) {id : Str} (hid : s.authenticators.find id = none) :
      Takes s (.register req now id) (register cfg s req now id)
  | request {i : ℕ} {req : WebAuthnAuthenticationRequest} {calls : Threads WebAuthnAuthenticationRequest Phase}
      (hstart : s.calls.start i req .called = some calls) : Takes s (.request i req) { s with calls := calls }
  | list {i : ℕ} {req : WebAuthnAuthenticationRequest} (now : Time) (hi : s.calls.find i = some ⟨i, req, .called⟩) :
      Takes s (.list i now) { s with calls := s.calls.move i (matchCall s.authenticators req now) }
  | verify {i : ℕ} {req : WebAuthnAuthenticationRequest} {start : Time} {row : AuthenticatorRecord}
      {cred : StoredWebAuthnCredential} (now : Time)
      (hi : s.calls.find i = some ⟨i, req, .matched start row cred⟩) :
      Takes s (.verify i now) (verify cfg C V s i req start now row cred)
  | save {i : ℕ} {req : WebAuthnAuthenticationRequest} {v : Verified}
      (hi : s.calls.find i = some ⟨i, req, .verified v⟩) :
      Takes s (.save i)
        { s with
          authenticators := s.authenticators.save { v.row with secretOrKey := v.cred.marshal }
          calls := s.calls.move i (.saved v) }
  | saveFailed {i : ℕ} {req : WebAuthnAuthenticationRequest} {v : Verified}
      (hi : s.calls.find i = some ⟨i, req, .verified v⟩) :
      Takes s (.saveFailed i) { s with calls := s.calls.move i (.saved v) }
  | openSession {i : ℕ} {req : WebAuthnAuthenticationRequest} {v : Verified} (sessionID : Str)
      (idleTTL sessionTTL : Time) (hi : s.calls.find i = some ⟨i, req, .saved v⟩) :
      Takes s (.openSession i sessionID idleTTL sessionTTL)
        (openSession s i req v sessionID idleTTL sessionTTL)

variable {cfg C V}

theorem takes_of_step {s t : State} {e : Event} (h : step cfg C V s e = some t) : Takes cfg C V s e t := by
  cases e with
  | challenge use =>
    cases h
    exact .challenge use
  | register req now id =>
    dsimp only [step] at h
    split at h
    · cases h
    case isFalse hnone =>
      cases h
      exact .register req now (by simpa using hnone)
  | request i req =>
    obtain ⟨calls, hcalls, rfl⟩ := Option.map_eq_some_iff.mp h
    exact .request hcalls
  | list i now =>
    dsimp only [step] at h
    split at h <;> cases h
    exact .list now (Threads.find_self ‹_›)
  | verify i now =>
    dsimp only [step] at h
    split at h <;> cases h
    exact .verify now (Threads.find_self ‹_›)
  | save i =>
    dsimp only [step] at h
    split at h <;> cases h
    exact .save (Threads.find_self ‹_›)
  | saveFailed i =>
    dsimp only [step] at h
    split at h <;> cases h
    exact .saveFailed (Threads.find_self ‹_›)
  | openSession i sessionID idleTTL sessionTTL =>
    dsimp only [step] at h
    split at h <;> cases h
    exact .openSession sessionID idleTTL sessionTTL (Threads.find_self ‹_›)

end Step

/-! ## What sessions rest on -/

/-- An origin that is configured, or whose host is localhost. -/
def OriginAllowed (cfg : WebAuthnRPConfig) (origin : Str) : Prop :=
  origin ∈ cfg.allowedOrigins ∨ urlHostname origin = some (str "localhost")

instance decidableOriginAllowed (cfg : WebAuthnRPConfig) (origin : Str) : Decidable (OriginAllowed cfg origin) :=
  inferInstanceAs (Decidable (_ ∨ _))

/-- The request's assertion: its challenge was accepted for this tenant and operator and for a login, its
origin is allowed, and its relying-party hash is that of the configured id or of the origin's host. -/
def Rests (cfg : WebAuthnRPConfig) (C : Crypto) (m : WebAuthnManager) (req : WebAuthnAuthenticationRequest) : Prop :=
  ∃ raw cd authData now, req.clientData = .ok (raw, cd) ∧ decodeBase64 req.authenticatorData = some authData ∧
    ⟨cd.challenge, req.tenantID, req.operatorID, .get, now⟩ ∈ m.accepted ∧ OriginAllowed cfg cd.origin ∧
    (authData.take 32 = C.sha256 cfg.rpID ∨
      ∃ host, urlHostname cd.origin = some host ∧ authData.take 32 = C.sha256 host)

/-- An origin that the comparison of origins does not blur: one that starts as an origin of localhost is
one, and one that is configured up to case and trailing slashes is spelled as configured. -/
def PlainOrigin (cfg : WebAuthnRPConfig) (origin : Str) : Prop :=
  (startsLocalhost (normalizeOrigin origin) = true → OriginAllowed cfg origin) ∧
    (normalizeOrigin origin ∈ cfg.allowedOrigins.map normalizeOrigin → OriginAllowed cfg origin)

instance decidablePlainOrigin (cfg : WebAuthnRPConfig) (origin : Str) : Decidable (PlainOrigin cfg origin) :=
  inferInstanceAs (Decidable ((_ → _) ∧ (_ → _)))

/-- Challenges are distinct, and the origins of the assertions that are verified are plain. -/
def PlainSteps (cfg : WebAuthnRPConfig) (s : State) : Event → Prop
  | .challenge use => use.challenge ∉ s.manager.issued.map ChallengeUse.challenge
  | .verify i _ => ∀ t ∈ s.calls.find i, ∀ p ∈ t.req.clientData.toOption, PlainOrigin cfg p.2.origin
  | _ => True

instance decidablePlainSteps (cfg : WebAuthnRPConfig) (s : State) (e : Event) : Decidable (PlainSteps cfg s e) := by
  cases e <;> dsimp only [PlainSteps] <;> infer_instance

theorem originAllowed_of_validateOrigin {cfg : WebAuthnRPConfig} {origin : Str} (hplain : PlainOrigin cfg origin)
    (h : validateOrigin cfg origin = true) : OriginAllowed cfg origin := by
  obtain ⟨allowed, hallowed, hmatch⟩ := List.any_eq_true.mp h
  rcases Bool.or_eq_true_iff.mp hmatch with hsame | hlocal
  · exact hplain.2 (List.mem_map.mpr ⟨allowed, hallowed, (of_decide_eq_true hsame).symm⟩)
  · exact hplain.1 hlocal

section Sound

variable {cfg : WebAuthnRPConfig} {C : Crypto} {V : KeySchemes} {m : WebAuthnManager}
  {req : WebAuthnAuthenticationRequest}

variable {m' : WebAuthnManager}

theorem Rests.mono (h : Rests cfg C m req) (hacc : ∀ a ∈ m.accepted, a ∈ m'.accepted) : Rests cfg C m' req := by
  obtain ⟨raw, cd, authData, now, hcd, hauth, haccepted, hrest⟩ := h
  exact ⟨raw, cd, authData, now, hcd, hauth, hacc _ haccepted, hrest⟩

theorem rests_of_verifyAssertion {now : Time} {stored cred : StoredWebAuthnCredential}
    (hplain : ∀ raw cd, req.clientData = .ok (raw, cd) → PlainOrigin cfg cd.origin)
    (h : verifyAssertion cfg C V m now req stored = (.ok cred, m')) : Rests cfg C m' req := by
  obtain ⟨raw, cd, authData, hcd, haccepted, hchecked, -⟩ := verifyAssertion_ok h
  refine ⟨raw, cd, authData, now, hcd, hchecked.decoded, haccepted,
    originAllowed_of_validateOrigin (hplain raw cd hcd) hchecked.origin, ?_⟩
  rcases Bool.or_eq_true_iff.mp hchecked.rpHash with hid | hhost
  · exact .inl (of_decide_eq_true hid)
  · right
    cases horigin : urlHostname cd.origin with
    | none =>
      rw [horigin] at hhost
      cases hhost
    | some host =>
      rw [horigin] at hhost
      exact ⟨host, rfl, of_decide_eq_true hhost⟩

/-- Every session, and every call on the way to one, rests on an assertion. -/
structure State.Sound (cfg : WebAuthnRPConfig) (C : Crypto) (s : State) : Prop where
  manager : s.manager.Sound
  calls : ∀ t ∈ s.calls.rows, t.phase.passed ≠ none → Rests cfg C s.manager t.req
  opened : ∀ o ∈ s.opened, Rests cfg C s.manager o.req ∧ o.session.tenantID = o.req.tenantID ∧
    o.session.operatorID = o.req.operatorID

theorem consumed_sound (hm : m.Sound) (h : m' = m ∨ ∃ use, m' = (m.consumeChallenge use).2) :
    m'.Sound ∧ ∀ a ∈ m.accepted, a ∈ m'.accepted := by
  rcases h with rfl | ⟨use, rfl⟩
  · exact ⟨hm, fun _ ha => ha⟩
  · exact ⟨hm.consumeChallenge, fun _ => WebAuthnManager.accepted_consumeChallenge⟩

variable {s t : State} {e : Event}

theorem State.Sound.withManager (h : s.Sound cfg C) (hm : m'.Sound ∧ ∀ a ∈ s.manager.accepted, a ∈ m'.accepted) :
    { s with manager := m' }.Sound cfg C :=
  ⟨hm.1, fun t ht hpassed => (h.calls t ht hpassed).mono hm.2, fun o ho =>
    ⟨(h.opened o ho).1.mono hm.2, (h.opened o ho).2⟩⟩

theorem State.Sound.withAuthenticators (h : s.Sound cfg C) (T : Authenticators) :
    { s with authenticators := T }.Sound cfg C :=
  ⟨h.manager, h.calls, h.opened⟩

theorem State.Sound.move (h : s.Sound cfg C) {i : ℕ} {x : Thread WebAuthnAuthenticationRequest Phase}
    (hi : s.calls.find i = some x) {p : Phase} (hp : p.passed ≠ none → Rests cfg C s.manager x.req) :
    { s with calls := s.calls.move i p }.Sound cfg C :=
  ⟨h.manager, Threads.forall_move hi (fun y hy _ => h.calls y hy) hp, h.opened⟩

theorem passed_matchCall (T : Authenticators) (req : WebAuthnAuthenticationRequest) (now : Time) :
    (matchCall T req now).passed = none := by
  unfold matchCall
  split
  · rfl
  · split
    · rfl
    · rfl

theorem State.Sound.verify (h : s.Sound cfg C) {i : ℕ} {start now : Time} {row : AuthenticatorRecord}
    {cred : StoredWebAuthnCredential} (hi : s.calls.find i = some ⟨i, req, .matched start row cred⟩)
    (hplain : ∀ raw cd, req.clientData = .ok (raw, cd) → PlainOrigin cfg cd.origin) :
    (WebAuthn.verify cfg C V s i req start now row cred).Sound cfg C := by
  have hm := h.withManager (consumed_sound h.manager (verifyAssertion_manager cfg C V s.manager now req cred))
  refine hm.move (i := i) hi ?_
  intro hpassed
  cases hr : verifyAssertion cfg C V s.manager now req cred with
  | mk r m' =>
    cases r with
    | error e =>
      rw [hr] at hpassed
      exact absurd rfl hpassed
    | ok cred' => exact rests_of_verifyAssertion hplain hr

theorem State.Sound.step (h : s.Sound cfg C) (hok : PlainSteps cfg s e) (ht : Takes cfg C V s e t) :
    t.Sound cfg C := by
  cases ht with
  | challenge use => exact h.withManager ⟨h.manager.generateChallenge hok, fun _ ha => ha⟩
  | register req now hid =>
    have hm := h.withManager (consumed_sound h.manager (verifyRegistration_manager cfg s.manager now req))
    unfold WebAuthn.register
    dsimp only
    split
    · exact hm
    · exact hm.withAuthenticators _
  | request hstart =>
    exact ⟨h.manager, Threads.forall_start hstart h.calls fun hpassed => absurd rfl hpassed, h.opened⟩
  | list now hi => exact h.move hi fun hpassed => absurd (passed_matchCall ..) hpassed
  | verify now hi =>
    refine h.verify hi fun raw cd hcd => hok _ hi (raw, cd) ?_
    rw [hcd]
    rfl
  | save hi =>
    have hcall := h.calls _ (Table.mem_of_find hi) (Option.some_ne_none _)
    exact (h.move hi fun _ => hcall).withAuthenticators _
  | saveFailed hi =>
    have hcall := h.calls _ (Table.mem_of_find hi) (Option.some_ne_none _)
    exact h.move hi fun _ => hcall
  | openSession sessionID idleTTL sessionTTL hi =>
    have hcall := h.calls _ (Table.mem_of_find hi) (Option.some_ne_none _)
    have hmoved := h.move (p := .opened) hi fun hpassed => absurd rfl hpassed
    exact ⟨hmoved.manager, hmoved.calls,
      List.forall_mem_append.mpr ⟨hmoved.opened, List.forall_mem_singleton.mpr ⟨hcall, rfl, rfl⟩⟩⟩

/-- In every run whose challenges are distinct and whose verified origins are plain, each challenge is accepted
at most once, in its five minutes and for what it was issued for, and every session rests on an assertion whose
origin is allowed. -/
theorem sessions_rest_on_assertions (cfg : WebAuthnRPConfig) (C : Crypto) (V : KeySchemes) (T : Authenticators)
    (s : State) (h : Run (Guarded (PlainSteps cfg) (StepOf (step cfg C V))) (State.init T) s) :
    (s.manager.accepted.map ChallengeUse.challenge).Nodup ∧
    (∀ a ∈ s.manager.accepted, ∃ u ∈ s.manager.issued, u.challenge = a.challenge ∧ u.tenantID = a.tenantID ∧
      u.operator = a.operator ∧ u.kind = a.kind ∧ a.time ≤ u.time + challengeTTL) ∧
    ∀ o ∈ s.opened, Rests cfg C s.manager o.req ∧ o.session.tenantID = o.req.tenantID ∧
      o.session.operatorID = o.req.operatorID := by
  have hinit : (State.init T).Sound cfg C :=
    ⟨WebAuthnManager.sound_init, List.forall_mem_nil _, List.forall_mem_nil _⟩
  have hsound : s.Sound cfg C := h.preserves
    (fun s e t hs hst => hs.step hst.1 (takes_of_step hst.2)) hinit
  exact ⟨hsound.manager.once, hsound.manager.accepted, hsound.opened⟩

end Sound

/-! ## Runs -/

def sampleRow : AuthenticatorRecord where
  id := str "a1"
  operatorID := str "op"
  tenantID := str "t1"
  type := .webAuthn
  secretOrKey := StoredWebAuthnCredential.marshal
    { credentialID := str "k1", keyType := str "Ed25519", publicKeyPEM := hexEncode (List.replicate 32 1) }

def sampleTable : Authenticators := ⟨[sampleRow], by decide⟩

/-- A login with the credential: the base64 of the challenge, of the rest of the client data with the
origin, and of the last two digits of the counter. -/
def sampleLogin (challenge origin count : String) : WebAuthnAuthenticationRequest where
  tenantID := str "t1"
  operatorID := str "op"
  browserSessionID := str "b1"
  browserPublicKey := hexEncode (List.replicate 32 2)
  credentialID := str "k1"
  clientDataJSON := str "eyJ0eXBlIjoid2ViYXV0aG4uZ2V0IiwiY2hhbGxlbmdlIjoi" ++ str challenge ++ str origin
  authenticatorData := str "bG9jYWxob3N0AAAAAAAAAAAAAAAAAAAAAAAAAAAAAAABAAAA" ++ str count
  signature := str "AQEBAQEBAQEBAQEBAQEBAQEBAQEBAQEBAQEBAQEBAQFnbmVsbGFoYyIsInRlZy5uaHR1YWJldyI6ImVweXQiew"

/-- The end of the client data with the origin `http://localhost:9999`. -/
def localOrigin : String := "LCJvcmlnaW4iOiJodHRwOi8vbG9jYWxob3N0Ojk5OTkifQ"

/-- The end of the client data with the origin `http://localhost.evil.example`. -/
def evilOrigin : String := "LCJvcmlnaW4iOiJodHRwOi8vbG9jYWxob3N0LmV2aWwuZXhhbXBsZSJ9"

def sampleSchemes : KeySchemes := ⟨fun _ _ _ => false, fun _ _ _ => false⟩

def sampleStep : State → Event → Option State := step .authority Crypto.sample sampleSchemes

def sampleChallenge (challenge : String) : Event := .challenge ⟨str challenge, str "t1", str "op", .get, 0⟩

def sampleRun (origin : String) : List Event :=
  [sampleChallenge "c1", .request 0 (sampleLogin "YzEi" origin "BQ"), .list 0 1, .verify 0 2, .save 0,
    .openSession 0 (str "s1") 10 100]

/-- A login from a configured origin. -/
theorem sessions_rest_on_local_login :
    ∃ s, Run (Guarded (PlainSteps .authority) (StepOf sampleStep)) (State.init sampleTable) s ∧
      s.opened ≠ [] ∧ ∀ o ∈ s.opened, Rests .authority Crypto.sample s.manager o.req := by
  refine exists_run (sampleRun localOrigin) (fun s => s.opened.length = 1) (by decide +kernel) (by decide +kernel) ?_
  intro s hrun hlength
  refine ⟨List.ne_nil_of_length_pos (by omega), fun o ho => ?_⟩
  exact ((sessions_rest_on_assertions .authority Crypto.sample sampleSchemes sampleTable s hrun).2.2 o ho).1

/-- A login from `http://localhost.evil.example`, which is not configured and whose host is not localhost. -/
theorem evil_origin_opens_session :
    ((runList sampleStep (State.init sampleTable) (sampleRun evilOrigin)).map fun s =>
        s.opened.map fun o => o.req.clientData.toOption.map fun p => p.2.origin) =
      some [some (str "http://localhost.evil.example")] ∧
    str "http://localhost.evil.example" ∉ WebAuthnRPConfig.authority.allowedOrigins ∧
    urlHostname (str "http://localhost.evil.example") = some (str "localhost.evil.example") := by
  decide +kernel

end Ominull.Auth.WebAuthn
