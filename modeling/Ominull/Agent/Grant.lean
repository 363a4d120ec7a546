import Ominull.Crypto
import Ominull.Lib.Framing
import Ominull.Lib.Scanf

/-! The agent's grants: their parser, their canonical bytes and the decoders of their fields. -/

namespace Ominull.Agent

open Lib

/-- `Response_HexToBytes`: each byte is scanned at its own place in the text. -/
def hexToBytes (hex : Str) (outLen : ℕ) : Option Str :=
  if hex.length < outLen * 2 then none
  else (List.range outLen).mapM fun i => scanHexByte (hex.drop (2 * i))

def b64Value (c : UInt8) : Option ℕ :=
  if 0x41 ≤ c ∧ c ≤ 0x5a then some (c.toNat - 0x41)
  else if 0x61 ≤ c ∧ c ≤ 0x7a then some (c.toNat - 0x61 + 26)
  else if 0x30 ≤ c ∧ c ≤ 0x39 then some (c.toNat - 0x30 + 52)
  else if c = 0x2b then some 62
  else if c = 0x2f then some 63
  else none

/-- The decoder's variables: the output so far, the counts of characters and pads, and the bits
not yet written out. -/
structure Base64State where
  out : Str
  chars : ℕ
  pad : ℕ
  buf : ℕ
  bits : ℕ

def base64Step (cap : ℕ) (s : Base64State) (c : UInt8) : Option Base64State :=
  if c = 0x20 ∨ c = 0x0a ∨ c = 0x0d ∨ c = 0x09 then some s
  else if c = 0x3d then
    if 2 < s.pad + 1 then none else some { s with chars := s.chars + 1, pad := s.pad + 1 }
  else if s.pad ≠ 0 then none
  else
    match b64Value c with
    | none => none
    | some v =>
      let buf := (s.buf * 64 + v) % 2 ^ 24
      let bits := s.bits + 6
      if 8 ≤ bits then
        if cap ≤ s.out.length then none
        else some ⟨s.out ++ [UInt8.ofNat (buf / 2 ^ (bits - 8))], s.chars + 1, 0, buf, bits - 8⟩
      else some ⟨s.out, s.chars + 1, 0, buf, bits⟩

/-- `Response_Base64Decode`; the empty string stands for its 0. -/
def base64Decode (text : Str) (cap : ℕ) : Str :=
  match text.foldlM (base64Step cap) ⟨[], 0, 0, 0, 0⟩ with
  | none => []
  | some s => if s.pad ≠ 0 ∧ s.chars % 4 ≠ 0 then [] else s.out

structure ResponseGrant where
  version : ℕ := 0
  grantID : Str := []
  tenantID : Str := []
  endpointID : Str := []
  actionKind : Str := []
  actionDigest : Str := []
  operatorID : Str := []
  responseSessionID : Str := []
  issuedAt : Int := 0
  expiresAt : Int := 0
  nonce : Str := []
  jobID : Str := []
  signerKeyID : Str := []
  signature : Str := []
  deriving DecidableEq

/-! ## Parsing -/

def skipWhitespace (s : Str) : Str :=
  s.dropWhile fun b => b = 0x20 || b = 0x09 || b = 0x0a || b = 0x0d

/-- The loop of `ParseBoundedString`, with the room that is left. A backslash is dropped and the
character behind it taken as it is. -/
def boundedBody : ℕ → Str → Option Str × Str
  | _, [] => (none, [])
  | room, [b] =>
    if b = 0x22 then (some [], [])
    else if room = 0 then (none, [b]) else (none, [])
  | room, b :: c :: s =>
    if b = 0x22 then (some [], c :: s)
    else if b = 0x5c then
      match room with
      | 0 => (none, c :: s)
      | room + 1 => let r := boundedBody room s; (r.1.map (c :: ·), r.2)
    else
      match room with
      | 0 => (none, b :: c :: s)
      | room + 1 => let r := boundedBody room (c :: s); (r.1.map (b :: ·), r.2)

/-- `ParseBoundedString` into a buffer of `cap` bytes: the text, or none, and where the pointer is
left in either case. -/
def parseBoundedString (cap : ℕ) (s : Str) : Option Str × Str :=
  match skipWhitespace s with
  | 0x22 :: s => boundedBody (cap - 1) s
  | s => (none, s)

def parseInt64Field (s : Str) : Option (Int × Str) :=
  let (negative, s) := scanMinus (skipWhitespace s)
  let digits := s.takeWhile isDigit
  if digits = [] ∨ 2 ^ 63 ≤ digitsValue digits then none
  else
    some (if negative then -(digitsValue digits : Int) else digitsValue digits,
      s.drop digits.length)

def parseUint32Field (s : Str) : Option (ℕ × Str) :=
  match parseInt64Field s with
  | some (n, s) => if n < 0 ∨ 0xffffffff < n then none else some (n.toNat, s)
  | none => none

/-- The string fields of a grant object, with the sizes of their buffers. -/
def grantStrings : List (Str × ℕ × (ResponseGrant → Str → ResponseGrant)) :=
  [(str "grant_id", 64, fun g v => { g with grantID := v }),
    (str "tenant_id", 64, fun g v => { g with tenantID := v }),
    (str "endpoint_id", 64, fun g v => { g with endpointID := v }),
    (str "action_kind", 64, fun g v => { g with actionKind := v }),
    (str "action_digest", 65, fun g v => { g with actionDigest := v }),
    (str "operator_id", 64, fun g v => { g with operatorID := v }),
    (str "response_session_id", 64, fun g v => { g with responseSessionID := v }),
    (str "nonce", 65, fun g v => { g with nonce := v }),
    (str "job_id", 64, fun g v => { g with jobID := v }),
    (str "signer_key_id", 65, fun g v => { g with signerKeyID := v }),
    (str "signature", 130, fun g v => { g with signature := v })]

/-- Skips to behind the bracket that closes `depth` open ones; brackets in strings count. -/
def skipNested (opening closing : UInt8) : ℕ → Str → Str
  | _, [] => []
  | 0, s => s
  | depth + 1, b :: s =>
    if b = opening then skipNested opening closing (depth + 2) s
    else if b = closing then skipNested opening closing depth s
    else skipNested opening closing (depth + 1) s

def skipUnknown (s : Str) : Str :=
  match s with
  | 0x22 :: _ => (parseBoundedString 256 s).2
  | 0x7b :: s => skipNested 0x7b 0x7d 1 s
  | 0x5b :: s => skipNested 0x5b 0x5d 1 s
  | s => s.dropWhile fun b => b ≠ 0x2c && b ≠ 0x7d

def grantValue (g : ResponseGrant) (key s : Str) : Option (ResponseGrant × Str) :=
  if key = str "version" then
    (parseUint32Field s).map fun (n, s) => ({ g with version := n }, s)
  else if key = str "issued_at" then
    (parseInt64Field s).map fun (n, s) => ({ g with issuedAt := n }, s)
  else if key = str "expires_at" then
    (parseInt64Field s).map fun (n, s) => ({ g with expiresAt := n }, s)
  else
    match grantStrings.find? fun f => f.1 = key with
    | some (_, cap, set) =>
      match parseBoundedString cap s with
      | (some v, s) => some (set g v, s)
      | (none, _) => none
    | none => some (g, skipUnknown s)

def grantMembers : ℕ → ResponseGrant → Str → Option (ResponseGrant × Str)
  | 0, _, _ => none
  | fuel + 1, g, s =>
    match s with
    | [] => some (g, [])
    | s =>
      match skipWhitespace s with
      | 0x7d :: s => some (g, s)
      | 0x2c :: s => grantMembers fuel g s
      | s =>
        match parseBoundedString 64 s with
        | (none, _) => none
        | (some key, s) =>
          match skipWhitespace s with
          | 0x3a :: s =>
            match grantValue g key (skipWhitespace s) with
            | some (g, s) => grantMembers fuel g s
            | none => none
          | _ => none

/-- What a grant must have to be one: V2, or V3 with the job it is for. -/
def ResponseGrant.complete (g : ResponseGrant) : Bool :=
  (g.version = 2 || (g.version = 3 && g.jobID ≠ [])) && g.grantID ≠ [] && g.endpointID ≠ [] &&
    g.actionKind ≠ [] && g.actionDigest ≠ [] && g.signature ≠ []

def extractGrantObject (s : Str) : Option (ResponseGrant × Str) :=
  match skipWhitespace s with
  | 0x7b :: s =>
    match grantMembers (s.length + 1) {} s with
    | some (g, s) => if g.complete then some (g, s) else none
    | none => none
  | _ => none

theorem parseInt64Field_lt {s rest : Str} {n : Int} (h : parseInt64Field s = some (n, rest)) : n < 2 ^ 63 := by
  unfold parseInt64Field at h
  dsimp only at h
  -- the sign only says which way the digits count
  generalize scanMinus (skipWhitespace s) = signed at h
  split at h
  · cases h
  · cases h
    split <;> omega

theorem grantStrings_issuedAt {f : Str × ℕ × (ResponseGrant → Str → ResponseGrant)}
    (hf : f ∈ grantStrings) (g : ResponseGrant) (v : Str) : (f.2.2 g v).issuedAt = g.issuedAt := by
  simp only [grantStrings, List.mem_cons, List.not_mem_nil, or_false] at hf
  rcases hf with rfl | rfl | rfl | rfl | rfl | rfl | rfl | rfl | rfl | rfl | rfl <;> rfl

theorem grantValue_issuedAt_lt {g g' : ResponseGrant} {key s rest : Str} (hg : g.issuedAt < 2 ^ 63)
    (h : grantValue g key s = some (g', rest)) : g'.issuedAt < 2 ^ 63 := by
  unfold grantValue at h
  split at h
  · obtain ⟨⟨n, s'⟩, -, heq⟩ := Option.map_eq_some_iff.mp h
    cases heq
    exact hg
  split at h
  · obtain ⟨⟨n, s'⟩, hn, heq⟩ := Option.map_eq_some_iff.mp h
    cases heq
    exact parseInt64Field_lt hn
  split at h
  · obtain ⟨⟨n, s'⟩, -, heq⟩ := Option.map_eq_some_iff.mp h
    cases heq
    exact hg
  split at h
  case h_1 key' cap set hfind =>
    split at h
    · cases h
      rw [grantStrings_issuedAt (List.mem_of_find?_eq_some hfind)]
      exact hg
    · cases h
  case h_2 =>
    cases h
    exact hg

theorem grantMembers_issuedAt_lt {fuel : ℕ} {g g' : ResponseGrant} {s rest : Str} (hg : g.issuedAt < 2 ^ 63)
    (h : grantMembers fuel g s = some (g', rest)) : g'.issuedAt < 2 ^ 63 := by
  induction fuel generalizing g s with
  | zero => cases h
  | succ fuel ih =>
    unfold grantMembers at h
    split at h
    · cases h
      exact hg
    split at h
    · cases h
      exact hg
    · exact ih hg h
    split at h
    · cases h
    split at h
    · split at h
      case h_1 g'' s'' hvalue => exact ih (grantValue_issuedAt_lt hg hvalue) h
      case h_2 => cases h
    · cases h

theorem extractGrantObject_issuedAt_lt {s rest : Str} {g : ResponseGrant}
    (h : extractGrantObject s = some (g, rest)) : g.issuedAt < 2 ^ 63 := by
  unfold extractGrantObject at h
  split at h
  · split at h
    case h_1 g' s' hmembers =>
      split at h
      · cases h
        exact grantMembers_issuedAt_lt (by decide) hmembers
      · cases h
    case h_2 => cases h
  · cases h

/-! ## Canonical bytes -/

def hexNormalizedFrame (s : Str) : Str := frame (lower s)

/-- The canonical bytes of a grant before the check that they fit their buffer. -/
def ResponseGrant.canonical (g : ResponseGrant) : Str :=
  frame (if g.version = 2 then str "OMINULL-ENDPOINT-GRANT-V2" else str "OMINULL-ENDPOINT-GRANT-V3") ++
    (bigEndian 4 g.version ++ (frame g.grantID ++ (frame g.tenantID ++ (frame g.endpointID ++
    (frame g.actionKind ++ (hexNormalizedFrame g.actionDigest ++ (frame g.operatorID ++
    (frame g.responseSessionID ++ (bigEndian 8 (unsigned64 g.issuedAt) ++
    (bigEndian 8 (unsigned64 g.expiresAt) ++ (hexNormalizedFrame g.nonce ++
    ((if g.version = 2 then [] else frame g.jobID) ++ hexNormalizedFrame g.signerKeyID))))))))))))

/-- `EncodeGrantCanonical` into a buffer of 1024 bytes. -/
def encodeGrantCanonical (g : ResponseGrant) : Option Str :=
  if g.version ≠ 2 ∧ (g.version ≠ 3 ∨ g.jobID = []) then none
  else if 1024 < g.canonical.length then none
  else some g.canonical

/-- `Response_SHA256_Sum` and `Response_BytesToHex`. -/
def sha256Hex (C : Crypto) (data : Str) : Str := hexEncode (C.sha256 data)

/-! ## The buffers of a grant -/

/-- The texts of a grant with the sizes of their buffers. -/
def ResponseGrant.texts (g : ResponseGrant) : List (Str × ℕ) :=
  [(g.grantID, 64), (g.tenantID, 64), (g.endpointID, 64), (g.actionKind, 64), (g.actionDigest, 65),
    (g.operatorID, 64), (g.responseSessionID, 64), (g.nonce, 65), (g.jobID, 64), (g.signerKeyID, 65),
    (g.signature, 130)]

structure ResponseGrant.Held (g : ResponseGrant) : Prop where
  version : g.version < 2 ^ 32
  texts : ∀ t ∈ g.texts, t.1.length < t.2 ∧ (0 : UInt8) ∉ t.1
  issuedAt : -2 ^ 63 ≤ g.issuedAt ∧ g.issuedAt < 2 ^ 63
  expiresAt : -2 ^ 63 ≤ g.expiresAt ∧ g.expiresAt < 2 ^ 63

def HeldGrant := { g : ResponseGrant // g.Held }
  deriving DecidableEq

end Ominull.Agent
