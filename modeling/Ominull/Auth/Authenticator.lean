import Ominull.Auth.SignGrant
import Ominull.Go.RoundTrip

/-! Enrolled authenticators: their rows, and the credential that a WebAuthn row holds as JSON. -/

namespace Ominull.Auth

open Go Lib Response List Option

inductive AuthenticatorStatus where
  | active
  | disabled
  | revoked
  deriving DecidableEq

structure AuthenticatorRecord where
  id : Str
  operatorID : Str
  tenantID : Str
  type : AuthMethod
  secretOrKey : Str
  status : AuthenticatorStatus := .active
  lastUsedAt : Option Time := none
  failureCount : Int := 0
  lockedUntil : Option Time := none
  deriving DecidableEq

abbrev Authenticators := Table AuthenticatorRecord.id

def validBrowserKey (key : Str) : Bool :=
  match hexDecode key with
  | some bytes => bytes.length = 32
  | none => false

def unlockedSession (method : AuthMethod) (tenantID operatorID browserSessionID browserPublicKey : Str) (now : Time)
    (sessionID : Str) (idleTTL sessionTTL : Time) : ResponseSession where
  sessionID := sessionID
  operatorID := operatorID
  tenantID := tenantID
  browserSessionID := browserSessionID
  browserPublicKey := browserPublicKey
  allowedActionKinds := [actionKindForensicCollect, actionKindScriptExec, actionKindTerminalSession,
    actionKindScreenSession]
  issuedAt := now
  idleExpiresAt := now + idleTTL
  absoluteExpiresAt := now + sessionTTL
  locked := false
  authMethod := method

namespace Authenticators

def list (T : Authenticators) (tenantID operatorID : Str) : List AuthenticatorRecord :=
  T.rows.filter fun r => r.tenantID = tenantID ∧ r.operatorID = operatorID ∧ r.status = .active

/-- `SaveAuthenticator`: an insert that on a known id writes all but the columns that say whose and of
which type the authenticator is. -/
def save (T : Authenticators) (auth : AuthenticatorRecord) : Authenticators :=
  (T.insert auth).getD (T.update auth.id
    (fun r => { r with
      secretOrKey := auth.secretOrKey
      status := auth.status
      lastUsedAt := auth.lastUsedAt
      failureCount := auth.failureCount
      lockedUntil := auth.lockedUntil })
    (fun _ => rfl))

def updateUsage (T : Authenticators) (id : Str) (lastUsed : Time) (failureCount : Int)
    (lockedUntil : Option Time) : Authenticators :=
  T.update id (fun r => { r with
      lastUsedAt := some lastUsed
      failureCount := failureCount
      lockedUntil := lockedUntil })
    (fun _ => rfl)

theorem mem_list {T : Authenticators} {tenantID operatorID : Str} {r : AuthenticatorRecord}
    (h : r ∈ T.list tenantID operatorID) :
    T.find r.id = some r ∧ r.tenantID = tenantID ∧ r.operatorID = operatorID ∧ r.status = .active := by
  obtain ⟨hmem, hr⟩ := List.mem_filter.mp h
  exact ⟨Table.find_of_mem hmem, of_decide_eq_true hr⟩

theorem find_save_other (T : Authenticators) (auth : AuthenticatorRecord) {id : Str} (h : id ≠ auth.id) :
    (T.save auth).find id = T.find id := by
  unfold save
  cases hins : T.insert auth with
  | some T' => rw [getD_some, Table.find_insert hins, if_neg (Ne.symm h)]
  | none => rw [getD_none, Table.find_update_other _ _ _ (Ne.symm h)]

theorem secretOrKey_save (T : Authenticators) (auth : AuthenticatorRecord) :
    ((T.save auth).find auth.id).map AuthenticatorRecord.secretOrKey = some auth.secretOrKey := by
  unfold save
  cases hins : T.insert auth with
  | some T' => rw [getD_some, Table.find_insert hins, if_pos rfl, map_some]
  | none =>
    cases hfind : T.find auth.id with
    | none =>
      obtain ⟨T', hT'⟩ := Table.insert_of_find_none hfind
      rw [hT'] at hins
      cases hins
    | some r => rw [getD_none, Table.find_update_same, hfind, map_some, map_some]

end Authenticators

/-! ## WebAuthn credentials -/

/-- The public key and the counter of a registered credential. -/
structure StoredWebAuthnCredential where
  credentialID : Str := []
  keyType : Str := []
  publicKeyPEM : Str := []
  signCount : ℕ := 0
  aaguid : Str := []
  deriving DecidableEq

namespace StoredWebAuthnCredential

def marshal (c : StoredWebAuthnCredential) : Str :=
  marshalStruct
    [some (str "credential_id", quote c.credentialID), some (str "key_type", quote c.keyType),
     some (str "public_key_pem", quote c.publicKeyPEM), some (str "sign_count", decimal c.signCount),
     if c.aaguid = [] then none else some (str "aaguid", quote c.aaguid)]

def fields : List (Go.Field StoredWebAuthnCredential) :=
  [⟨ascii "credential_id", fun v c => (decodeString v c.credentialID).map fun x => { c with credentialID := x }⟩,
   ⟨ascii "key_type", fun v c => (decodeString v c.keyType).map fun x => { c with keyType := x }⟩,
   ⟨ascii "public_key_pem", fun v c => (decodeString v c.publicKeyPEM).map fun x => { c with publicKeyPEM := x }⟩,
   ⟨ascii "sign_count", fun v c => (decodeUint 32 v c.signCount).map fun x => { c with signCount := x }⟩,
   ⟨ascii "aaguid", fun v c => (decodeString v c.aaguid).map fun x => { c with aaguid := x }⟩]

def unmarshal (s : Str) : Option StoredWebAuthnCredential := (parse s).bind fun v => decodeStruct fields v {}

structure WellFormed (c : StoredWebAuthnCredential) : Prop where
  credentialID : IsText c.credentialID
  keyType : IsText c.keyType
  publicKeyPEM : IsText c.publicKeyPEM
  signCount : c.signCount < 2 ^ 32
  aaguid : IsText c.aaguid

theorem isText_nil : IsText [] := ⟨[], rfl⟩

theorem wellFormed_of_unmarshal {s : Str} {c : StoredWebAuthnCredential} (h : unmarshal s = some c) :
    c.WellFormed := by
  obtain ⟨v, -, hv⟩ := bind_eq_some_iff.mp h
  refine decodeStruct_preserves (P := WellFormed) ?_
    ⟨isText_nil, isText_nil, isText_nil, by decide, isText_nil⟩ hv
  simp only [fields, forall_mem_cons]
  refine ⟨?_, ?_, ?_, ?_, ?_, fun f hf => by cases hf⟩
  all_goals
    intro v a b ha hset
    obtain ⟨x, hx, rfl⟩ := map_eq_some_iff.mp hset
  · exact { ha with credentialID := decodeString_isText ha.credentialID hx }
  · exact { ha with keyType := decodeString_isText ha.keyType hx }
  · exact { ha with publicKeyPEM := decodeString_isText ha.publicKeyPEM hx }
  · exact { ha with signCount := decodeUint_lt ha.signCount hx }
  · exact { ha with aaguid := decodeString_isText ha.aaguid hx }

def members (id keyType pem : List Char) (count : ℕ) (aaguid : List Char) : List (List Char × Json) :=
  [(ascii "credential_id", .str id), (ascii "key_type", .str keyType), (ascii "public_key_pem", .str pem),
    (ascii "sign_count", .num (decimal count))] ++ (if aaguid = [] then [] else [(ascii "aaguid", .str aaguid)])

theorem marshal_eq_encode (id keyType pem : List Char) (count : ℕ) (aaguid : List Char) :
    marshal ⟨utf8 id, utf8 keyType, utf8 pem, count, utf8 aaguid⟩ =
      encode (.obj (members id keyType pem count aaguid)) := by
  have hempty : utf8 aaguid = [] ↔ aaguid = [] := by
    constructor
    · intro h
      have hrunes := congrArg runes h
      rw [runes_utf8] at hrunes
      exact map_eq_nil_iff.mp hrunes
    · rintro rfl
      rfl
  rw [← marshalStruct_eq_encode]
  simp only [marshal, members, quote_utf8, hempty]
  split
  · rfl
  · rfl

theorem fits_members (id keyType pem : List Char) (count : ℕ) (aaguid : List Char) :
    (Json.obj (members id keyType pem count aaguid)).Fits maxNestingDepth := by
  show Json.Fits (9999 + 1) _
  rw [Json.Fits, membersFit_iff]
  intro m hm
  have hnumber : (Json.num (decimal count)).Fits 9999 := numberText_decimalInt count
  rcases mem_append.mp hm with hm | hm
  · simp only [mem_cons, not_mem_nil, or_false] at hm
    rcases hm with rfl | rfl | rfl | rfl
    · exact trivial
    · exact trivial
    · exact trivial
    · exact hnumber
  · split at hm
    · cases hm
    · rw [mem_singleton.mp hm]
      exact trivial

/-- A credential is read back as it was written. -/
theorem unmarshal_marshal {c : StoredWebAuthnCredential} (h : c.WellFormed) : unmarshal c.marshal = some c := by
  obtain ⟨id, keyType, pem, count, aaguid⟩ := c
  obtain ⟨⟨id, rfl⟩, ⟨keyType, rfl⟩, ⟨pem, rfl⟩, hcount, ⟨aaguid, rfl⟩⟩ := h
  rw [unmarshal, marshal_eq_encode, parse_encode (fits_members ..)]
  show (members id keyType pem count aaguid).foldlM (storeMember fields) {} = _
  have hid : ∀ c, storeMember fields c (ascii "credential_id", .str id) = some { c with credentialID := utf8 id } :=
    fun _ => rfl
  have hkeyType : ∀ c, storeMember fields c (ascii "key_type", .str keyType) = some { c with keyType := utf8 keyType } :=
    fun _ => rfl
  have hpem : ∀ c, storeMember fields c (ascii "public_key_pem", .str pem) = some { c with publicKeyPEM := utf8 pem } :=
    fun _ => rfl
  have hsignCount : ∀ c, storeMember fields c (ascii "sign_count", .num (decimal count)) = some { c with signCount := count } :=
    fun c => congrArg (Option.map _) (decodeUint_decimal hcount c.signCount)
  have haaguid : ∀ c, storeMember fields c (ascii "aaguid", .str aaguid) = some { c with aaguid := utf8 aaguid } :=
    fun _ => rfl
  unfold members
  split
  case isTrue hnone =>
    subst hnone
    simp only [append_nil, foldlM_cons, foldlM_nil, hid, hkeyType, hpem, hsignCount]
    rfl
  case isFalse =>
    simp only [cons_append, nil_append, foldlM_cons, foldlM_nil, hid, hkeyType, hpem,
      hsignCount, haaguid]
    rfl

/-- What can be read at all is kept when it is written again, and nothing else is. -/
theorem kept_iff_readable (c : StoredWebAuthnCredential) :
    unmarshal c.marshal = some c ↔ ∃ s, unmarshal s = some c :=
  ⟨fun h => ⟨_, h⟩, fun ⟨_, h⟩ => unmarshal_marshal (wellFormed_of_unmarshal h)⟩

end StoredWebAuthnCredential

end Ominull.Auth
