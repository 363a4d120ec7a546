import Ominull.Auth.Totp
import Ominull.Lib.Run
import Ominull.Lib.Threads

/-!
Unlock attempts with one-time codes side by side: the read of the operator's authenticators, the write of
the failure count, the entry of the time step and the write of the session are steps of their own.
-/

namespace Ominull.Auth.Totp

open Go Lib Response

inductive Phase where
  | called
  /-- No code matched; the failure is not yet written. -/
  | failing (now : Time) (row : AuthenticatorRecord)
  /-- The code is of this step; the step is not yet entered. -/
  | matched (now : Time) (row : AuthenticatorRecord) (step : Int)
  /-- The step is entered; the failure count is not yet reset. -/
  | recorded (now : Time) (row : AuthenticatorRecord) (step : Int)
  | reset (now : Time) (step : Int)
  | opened (session : ResponseSession) (step : Int)
  | refused
  deriving DecidableEq

/-- The attempt has read the authenticators and has yet to write one. -/
def Phase.pending : Phase → Bool
  | .failing .. | .matched .. | .recorded .. => true
  | _ => false

def Phase.enteredStep : Phase → Option Int
  | .recorded _ _ step | .reset _ step | .opened _ step => some step
  | _ => none

def Phase.openedStep : Phase → Option Int
  | .opened _ step => some step
  | _ => none

/-- An attempt that is decided: its code was wrong, or it was accepted. -/
structure Attempt where
  tenantID : Str
  operatorID : Str
  now : Time
  failed : Bool
  deriving DecidableEq

/-- The store, the attempts, and the record of those decided, the latest first. -/
structure State where
  authenticators : Authenticators
  nonces : List Str
  calls : Threads Request Phase
  history : List Attempt

def State.init : State := ⟨Table.empty, [], Table.empty, []⟩

inductive Event where
  /-- A new authenticator, of either type. -/
  | enroll (id tenantID operatorID : Str) (type : AuthMethod) (secretOrKey : Str)
  | request (i : ℕ) (req : Request)
  | list (i : ℕ) (now : Time)
  | countFailure (i : ℕ)
  | enterStep (i : ℕ)
  | resetFailures (i : ℕ)
  | openSession (i : ℕ) (sessionID : Str) (idleTTL sessionTTL : Time)
  /-- Other users of the nonce table. -/
  | nonce (key : Str)

/-- The reads of an attempt, and the comparison of the code. -/
def unlockCall (K : Keys) (T : Authenticators) (req : Request) (now : Time) : Phase :=
  let rows := T.list req.tenantID req.operatorID
  if req.tenantID = [] ∨ req.operatorID = [] then .refused
  else if rows = [] then .refused
  else if !validBrowserKey req.browserPublicKey then .refused
  else
    match evaluate K req.totpCode now rows with
    | .locked => .refused
    | .matched row step => .matched now row step
    | .noMatch =>
      match firstTotp T req.tenantID req.operatorID with
      | some row => .failing now row
      | none => .refused

/-- The attempt's code is compared with at least one authenticator's: the first one is not locked. -/
def ComparesCode (T : Authenticators) (req : Request) (now : Time) : Prop :=
  ∃ row, firstTotp T req.tenantID req.operatorID = some row ∧ isLocked row now = false

instance decidableComparesCode (T : Authenticators) (req : Request) (now : Time) :
    Decidable (ComparesCode T req now) :=
  match h : firstTotp T req.tenantID req.operatorID with
  | none => isFalse fun ⟨_, hrow, _⟩ => Option.some_ne_none _ (hrow.symm.trans h)
  | some row => decidable_of_iff (isLocked row now = false)
      ⟨fun hlocked => ⟨row, h, hlocked⟩, fun ⟨_, hrow, hlocked⟩ => Option.some.inj (h.symm.trans hrow) ▸ hlocked⟩

def lockUntil (now : Time) (count : Int) : Option Time :=
  if maxFailedAttempts ≤ count then some (now + lockoutDuration) else none

def newSession (req : Request) (now : Time) (sessionID : Str) (idleTTL sessionTTL : Time) : ResponseSession :=
  unlockedSession .totp req.tenantID req.operatorID req.browserSessionID req.browserPublicKey now sessionID
    idleTTL sessionTTL

def newRow (id tenantID operatorID : Str) (type : AuthMethod) (secretOrKey : Str) : AuthenticatorRecord :=
  { id := id, operatorID := operatorID, tenantID := tenantID, type := type, secretOrKey := secretOrKey }

def countFailure (s : State) (i : ℕ) (req : Request) (now : Time) (row : AuthenticatorRecord) : State :=
  { s with
    authenticators := s.authenticators.updateUsage row.id now (row.failureCount + 1)
      (lockUntil now (row.failureCount + 1))
    calls := s.calls.move i .refused
    history := ⟨req.tenantID, req.operatorID, now, true⟩ :: s.history }

def resetFailures (s : State) (i : ℕ) (req : Request) (now : Time) (row : AuthenticatorRecord) (step : Int) : State :=
  { s with
    authenticators := s.authenticators.updateUsage row.id now 0 none
    calls := s.calls.move i (.reset now step)
    history := ⟨req.tenantID, req.operatorID, now, false⟩ :: s.history }

def enterStep (s : State) (i : ℕ) (req : Request) (now : Time) (row : AuthenticatorRecord) (step : Int) : State :=
  if stepNonce req step ∈ s.nonces then { s with calls := s.calls.move i .refused }
  else
    { s with
      nonces := stepNonce req step :: s.nonces
      calls := s.calls.move i (.recorded now row step) }

def step (K : Keys) (s : State) : Event → Option State
  | .enroll id tenantID operatorID type secretOrKey =>
    (s.authenticators.insert (newRow id tenantID operatorID type secretOrKey)).map fun T =>
      { s with authenticators := T }
  | .request i req => (s.calls.start i req .called).map fun calls => { s with calls := calls }
  | .list i now =>
    match s.calls.find i with
    | some ⟨_, req, .called⟩ => some { s with calls := s.calls.move i (unlockCall K s.authenticators req now) }
    | _ => none
  | .countFailure i =>
    match s.calls.find i with
    | some ⟨_, req, .failing now row⟩ => some (countFailure s i req now row)
    | _ => none
  | .enterStep i =>
    match s.calls.find i with
    | some ⟨_, req, .matched now row step⟩ => some (enterStep s i req now row step)
    | _ => none
  | .resetFailures i =>
    match s.calls.find i with
    | some ⟨_, req, .recorded now row step⟩ => some (resetFailures s i req now row step)
    | _ => none
  | .openSession i sessionID idleTTL sessionTTL =>
    match s.calls.find i with
    | some ⟨_, req, .reset now step⟩ =>
      some { s with calls := s.calls.move i (.opened (newSession req now sessionID idleTTL sessionTTL) step) }
    | _ => none
  | .nonce key => if key ∈ s.nonces then none else some { s with nonces := key :: s.nonces }

inductive Takes (K : Keys) (s : State) : Event → State → Prop where
  | enroll {id tenantID operatorID : Str} {type : AuthMethod} {secretOrKey : Str} {T : Authenticators}
      (hins : s.authenticators.insert (newRow id tenantID operatorID type secretOrKey) = some T) :
      Takes K s (.enroll id tenantID operatorID type secretOrKey) { s with authenticators := T }
  | request {i : ℕ} {req : Request} {calls : Threads Request Phase}
      (hstart : s.calls.start i req .called = some calls) : Takes K s (.request i req) { s with calls := calls }
  | list {i : ℕ} {req : Request} (now : Time) (hi : s.calls.find i = some ⟨i, req, .called⟩) :
      Takes K s (.list i now) { s with calls := s.calls.move i (unlockCall K s.authenticators req now) }
  | countFailure {i : ℕ} {req : Request} {now : Time} {row : AuthenticatorRecord}
      (hi : s.calls.find i = some ⟨i, req, .failing now row⟩) :
      Takes K s (.countFailure i) (countFailure s i req now row)
  | enterStep {i : ℕ} {req : Request} {now : Time} {row : AuthenticatorRecord} {step : Int}
      (hi : s.calls.find i = some ⟨i, req, .matched now row step⟩) :
      Takes K s (.enterStep i) (enterStep s i req now row step)
  | resetFailures {i : ℕ} {req : Request} {now : Time} {row : AuthenticatorRecord} {step : Int}
      (hi : s.calls.find i = some ⟨i, req, .recorded now row step⟩) :
      Takes K s (.resetFailures i) (resetFailures s i req now row step)
  | openSession {i : ℕ} {req : Request} {now : Time} {step : Int} (sessionID : Str) (idleTTL sessionTTL : Time)
      (hi : s.calls.find i = some ⟨i, req, .reset now step⟩) :
      Takes K s (.openSession i sessionID idleTTL sessionTTL)
        { s with calls := s.calls.move i (.opened (newSession req now sessionID idleTTL sessionTTL) step) }
  | nonce {key : Str} (hnew : key ∉ s.nonces) : Takes K s (.nonce key) { s with nonces := key :: s.nonces }

variable {K : Keys} {s t : State} {e : Event}

theorem takes_of_step (h : step K s e = some t) : Takes K s e t := by
  cases e with
  | enroll id tenantID operatorID type secretOrKey =>
    obtain ⟨T, hT, rfl⟩ := Option.map_eq_some_iff.mp h
    exact .enroll hT
  | request i req =>
    obtain ⟨calls, hcalls, rfl⟩ := Option.map_eq_some_iff.mp h
    exact .request hcalls
  | list i now =>
    dsimp only [step] at h
    split at h <;> cases h
    exact .list now (Threads.find_self ‹_›)
  | countFailure i =>
    dsimp only [step] at h
    split at h <;> cases h
    exact .countFailure (Threads.find_self ‹_›)
  | enterStep i =>
    dsimp only [step] at h
    split at h <;> cases h
    exact .enterStep (Threads.find_self ‹_›)
  | resetFailures i =>
    dsimp only [step] at h
    split at h <;> cases h
    exact .resetFailures (Threads.find_self ‹_›)
  | openSession i sessionID idleTTL sessionTTL =>
    dsimp only [step] at h
    split at h <;> cases h
    exact .openSession sessionID idleTTL sessionTTL (Threads.find_self ‹_›)
  | nonce key =>
    dsimp only [step] at h
    split at h
    · cases h
    case isFalse hnew =>
      cases h
      exact .nonce hnew

end Ominull.Auth.Totp
