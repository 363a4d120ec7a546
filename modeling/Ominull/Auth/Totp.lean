import Ominull.Auth.Authenticator
import Ominull.Go.Base64

/-! One-time codes: how they are computed, compared and looked up among an operator's authenticators. -/

namespace Ominull.Auth.Totp

open Go Lib Response

/-- `unicode.ToUpper`, as far as base32 can tell: apart from the letters, the dotless i and the long s have
an upper case in ASCII. -/
def upperRune (c : Char) : Char :=
  if 'a' ≤ c ∧ c ≤ 'z' then Char.ofNat (c.toNat - 32)
  else if c.toNat = 0x131 then 'I'
  else if c.toNat = 0x17f then 'S'
  else c

/-- The key of a secret: base32 without padding, else with it. -/
def secretKey (secret : Str) : Option Str :=
  let secret := utf8 ((runes (trimSpace secret)).map fun r => upperRune r.char)
  base32Decode none secret <|> base32Decode (some 0x3d) secret

/-- The time step of a clock reading: `t.Unix() / 30`. -/
def timeStep (t : Time) : Int := (t / 1000000000).tdiv 30

def sixDigits (n : ℕ) : Str := List.replicate (6 - (decimal n).length) 0x30 ++ decimal n

/-- `GenerateTOTPCode` over an HMAC-SHA1. -/
def generateTOTPCode (hmac : Str → Str → Str) (secret : Str) (t : Time) : Option Str :=
  (secretKey secret).map fun key =>
    let h := hmac key (bigEndian 8 (unsigned64 (timeStep t)))
    let offset := (h.getLastD 0).toNat % 16
    let truncated := ((h.drop offset).take 4).foldl (fun n b => 256 * n + b.toNat) 0 % 2 ^ 31
    sixDigits (truncated % 1000000)

def period : Time := 30 * 1000000000

/-- `VerifyTOTPCodeWithStep`: the step a code is of, among the present one, the last and the next. -/
def verifyTOTPCode (hmac : Str → Str → Str) (secret code : Str) (now : Time) : Option Int :=
  let code := trimSpace code
  if code.length ≠ 6 then none
  else
    [0, -period, period].findSome? fun offset =>
      if generateTOTPCode hmac secret (now + offset) = some code then some (timeStep (now + offset)) else none

def decryptSecret (A : Aead) (key secret : Str) : Option Str := do
  let data ← hexDecode secret
  if data.length < 12 then none else A.decrypt key (data.take 12) (data.drop 12) []

def maxFailedAttempts : Int := 5

def lockoutDuration : Time := 900 * 1000000000

structure Request where
  tenantID : Str
  operatorID : Str
  browserSessionID : Str
  browserPublicKey : Str
  totpCode : Str
  deriving DecidableEq

/-- What authenticators are checked with: the HMAC, the cipher of the secrets and its key. -/
structure Keys where
  hmac : Str → Str → Str
  aead : Aead
  masterKey : Str

/-- The step a code is of, for one authenticator; a secret that does not decrypt is taken as it is. -/
def Keys.stepOf (K : Keys) (row : AuthenticatorRecord) (code : Str) (now : Time) : Option Int :=
  verifyTOTPCode K.hmac ((decryptSecret K.aead K.masterKey row.secretOrKey).getD row.secretOrKey) code now

def isTotp (row : AuthenticatorRecord) : Bool := row.type = .totp && row.status = .active

/-- `LockedUntil` is set and not yet reached. -/
def isLocked (row : AuthenticatorRecord) (now : Time) : Bool :=
  match row.lockedUntil with
  | some t => now < t
  | none => false

inductive Outcome where
  | locked
  | matched (row : AuthenticatorRecord) (timeStep : Int)
  | noMatch
  deriving DecidableEq

def evaluate (K : Keys) (code : Str) (now : Time) : List AuthenticatorRecord → Outcome
  | [] => .noMatch
  | row :: rows =>
    if !isTotp row then evaluate K code now rows
    else if isLocked row now then .locked
    else
      match K.stepOf row code now with
      | some step => .matched row step
      | none => evaluate K code now rows

def firstTotp (T : Authenticators) (tenantID operatorID : Str) : Option AuthenticatorRecord :=
  (T.list tenantID operatorID).find? isTotp

/-- The key of the replay check. -/
def stepNonce (req : Request) (step : Int) : Str :=
  str "totp:" ++ req.tenantID ++ str ":" ++ req.operatorID ++ str ":" ++ decimalInt step

theorem evaluate_matched {K : Keys} {code : Str} {now : Time} {rows : List AuthenticatorRecord}
    {row : AuthenticatorRecord} {step : Int} (h : evaluate K code now rows = .matched row step) : row ∈ rows := by
  induction rows with
  | nil => cases h
  | cons r rows ih =>
    unfold evaluate at h
    split at h
    · exact List.mem_cons_of_mem _ (ih h)
    · split at h
      · cases h
      · split at h
        · cases h
          exact List.mem_cons_self
        · exact List.mem_cons_of_mem _ (ih h)

end Ominull.Auth.Totp
