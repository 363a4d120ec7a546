import Ominull.Auth.SignGrant
import Ominull.Lib.Run

/-! The authority under concurrent requests: every store read and every store write is one step. -/

namespace Ominull.Auth

open Lib Response

inductive Phase where
  | called
  | checked (now : Time) (session : ResponseSession)
  | recorded (now : Time) (session : ResponseSession)
  | saved (now : Time) (session : ResponseSession)
  | granted (grant : EndpointGrant)
  | refused (e : SignError)
  deriving DecidableEq

/-- A call in this phase has got past the checks on the session and the proof. -/
def Phase.passed : Phase → Bool
  | .called | .refused _ => false
  | _ => true

/-- A `SignGrant` call. `afterLock` remembers whether `LockSession` had returned success for its
session when the call started. -/
structure Call where
  req : SignGrantRequest
  afterLock : Bool
  phase : Phase
  deriving DecidableEq

/-- The authority's store, the calls it has served, the `LockSession` calls that have written
(`locking`) and those that have returned (`lockReturned`). -/
structure State where
  sessions : Table ResponseSession.sessionID
  nonces : List Str
  calls : ℕ → Option Call
  locking : List Str
  lockReturned : List Str

namespace State

def init : State := ⟨Table.empty, [], fun _ => none, [], []⟩

def setCall (s : State) (i : ℕ) (c : Call) : State :=
  { s with calls := Function.update s.calls i (some c) }

theorem calls_setCall {s : State} {i j : ℕ} {c c' : Call}
    (h : (s.setCall i c).calls j = some c') : (j = i ∧ c' = c) ∨ (j ≠ i ∧ s.calls j = some c') := by
  by_cases hj : j = i
  · subst hj
    left
    simpa [setCall, eq_comm] using h
  · right
    exact ⟨hj, by simpa [setCall, Function.update_of_ne hj] using h⟩

/-- `SaveSession`: an insert that, on a known id, writes the idle deadline and the lock flag. -/
def saveSession (s : State) (session : ResponseSession) : State :=
  { s with
    sessions := (s.sessions.insert session).getD
      (s.sessions.update session.sessionID
        (fun r => { r with idleExpiresAt := session.idleExpiresAt, locked := session.locked })
        (fun _ => rfl)) }

theorem find_saveSession (s : State) (session : ResponseSession) {id : Str} {r : ResponseSession}
    (h : s.sessions.find id = some r) :
    (s.saveSession session).sessions.find id = some (if id = session.sessionID then
      { r with idleExpiresAt := session.idleExpiresAt, locked := session.locked } else r) := by
  unfold saveSession
  cases hins : s.sessions.insert session with
  | some T =>
    have hnone := (Table.insert_rows hins).2
    have hne : id ≠ session.sessionID := by
      intro heq
      rw [← heq, h] at hnone
      cases hnone
    simp only [Option.getD_some, if_neg hne]
    exact Table.find_insert_of_find hins h
  | none =>
    simp only [Option.getD_none]
    split
    case isTrue heq => subst heq; rw [Table.find_update_same, h]; rfl
    case isFalse hne => rw [Table.find_update_other _ _ _ (Ne.symm hne), h]

def lockSession (s : State) (id : Str) : State :=
  { s with sessions := s.sessions.update id (fun r => { r with locked := true }) (fun _ => rfl) }

end State

inductive Event where
  | unlock (session : ResponseSession)
  | request (i : ℕ) (req : SignGrantRequest)
  | read (i : ℕ)
  | record (i : ℕ)
  | save (i : ℕ)
  | saveFailed (i : ℕ)
  | sign (i : ℕ)
  | lock (id : Str)
  | lockReturn (id : Str)
  | nonce (key : Str)

/-- One step of the authority. A call that fails on a store error takes no further step, except
that the error of the session write is dropped and the call goes on. -/
inductive Step (C : Crypto) (s : State) : Event → State → Prop where
  /-- A successful unlock saves a session under a fresh id. -/
  | unlock (session : ResponseSession) (hnew : s.sessions.find session.sessionID = none)
      (hopen : session.locked = false) : Step C s (.unlock session) (s.saveSession session)
  | request (i : ℕ) (req : SignGrantRequest) (hi : s.calls i = none) :
      Step C s (.request i req)
        (s.setCall i ⟨req, decide (req.sessionID ∈ s.lockReturned), .called⟩)
  /-- `GetSession` and the checks on what it returned. -/
  | read {i : ℕ} {req : SignGrantRequest} {after : Bool} (now : Time)
      (hi : s.calls i = some ⟨req, after, .called⟩) {session : ResponseSession}
      (hok : checkRequest C now req (s.sessions.find req.sessionID) = .ok session) :
      Step C s (.read i) (s.setCall i ⟨req, after, .checked now session⟩)
  | refuse {i : ℕ} {req : SignGrantRequest} {after : Bool} (now : Time)
      (hi : s.calls i = some ⟨req, after, .called⟩) {e : SignError}
      (hno : checkRequest C now req (s.sessions.find req.sessionID) = .error e) :
      Step C s (.read i) (s.setCall i ⟨req, after, .refused e⟩)
  /-- `CheckAndRecordNonce`: one insert into a table with a unique key. -/
  | record {i : ℕ} {req : SignGrantRequest} {after : Bool} {now : Time} {session : ResponseSession}
      (hi : s.calls i = some ⟨req, after, .checked now session⟩)
      (hnew : proofNonceKey req ∉ s.nonces) :
      Step C s (.record i)
        ({ s with nonces := proofNonceKey req :: s.nonces }.setCall i
          ⟨req, after, .recorded now session⟩)
  | replayed {i : ℕ} {req : SignGrantRequest} {after : Bool} {now : Time}
      {session : ResponseSession} (hi : s.calls i = some ⟨req, after, .checked now session⟩)
      (hold : proofNonceKey req ∈ s.nonces) :
      Step C s (.record i) (s.setCall i ⟨req, after, .refused .nonceUsed⟩)
  /-- `UpdateSession` writes back the copy that was read, with a new idle deadline. -/
  | save {i : ℕ} {req : SignGrantRequest} {after : Bool} {now : Time} {session : ResponseSession}
      (hi : s.calls i = some ⟨req, after, .recorded now session⟩) (idleTTL : Time) :
      Step C s (.save i)
        ((s.saveSession { session with idleExpiresAt := now + idleTTL }).setCall i
          ⟨req, after, .saved now session⟩)
  | saveFailed {i : ℕ} {req : SignGrantRequest} {after : Bool} {now : Time}
      {session : ResponseSession} (hi : s.calls i = some ⟨req, after, .recorded now session⟩) :
      Step C s (.saveFailed i) (s.setCall i ⟨req, after, .saved now session⟩)
  | sign {i : ℕ} {req : SignGrantRequest} {after : Bool} {now : Time} {session : ResponseSession}
      (hi : s.calls i = some ⟨req, after, .saved now session⟩) (privKey grantID nonce : Str) :
      Step C s (.sign i)
        (s.setCall i
          ⟨req, after, .granted (makeGrant C privKey now req session grantID nonce)⟩)
  | noKey {i : ℕ} {req : SignGrantRequest} {after : Bool} {now : Time} {session : ResponseSession}
      (hi : s.calls i = some ⟨req, after, .saved now session⟩) :
      Step C s (.sign i) (s.setCall i ⟨req, after, .refused .noSigningKey⟩)
  /-- The write of `LockSession`; on an unknown id the call fails. -/
  | lock {id : Str} {r : ResponseSession} (hrow : s.sessions.find id = some r) :
      Step C s (.lock id) { s.lockSession id with locking := id :: s.locking }
  | lockReturn {id : Str} (hid : id ∈ s.locking) :
      Step C s (.lockReturn id) { s with lockReturned := id :: s.lockReturned }
  /-- Other users of the nonce table (one-time codes, approvals). -/
  | nonce (key : Str) (hnew : key ∉ s.nonces) :
      Step C s (.nonce key) { s with nonces := key :: s.nonces }

/-! A session and signed requests on it, for running the model. -/

def sampleSession : ResponseSession where
  sessionID := str "s1"
  operatorID := str "op"
  tenantID := str "t1"
  browserSessionID := str "b1"
  browserPublicKey := hexEncode (List.replicate 32 1)
  allowedActionKinds := [actionKindScriptExec]
  issuedAt := 0
  idleExpiresAt := 1000
  absoluteExpiresAt := 1000
  locked := false
  authMethod := .totp

def sampleProof (nonce : Str) : ActionProof :=
  let proof : ActionProof :=
    { version := 2, sessionID := str "s1", tenantID := str "t1", actionKind := actionKindScriptExec,
      actionDigest := hexEncode (List.replicate 32 0), targetEndpoints := [str "e1"],
      timestamp := 0, nonce := nonce, signature := [] }
  { proof with
    signature := hexEncode (Crypto.sample.sign (List.replicate 32 1) proof.canonicalBytes) }

def sampleRequest (nonce : Str) : SignGrantRequest where
  tenantID := str "t1"
  operatorID := str "op"
  sessionID := str "s1"
  endpointID := str "e1"
  actionKind := actionKindScriptExec
  actionDigest := hexEncode (List.replicate 32 0)
  actionPayload := []
  ttlSeconds := 60
  proof := sampleProof nonce

end Ominull.Auth
