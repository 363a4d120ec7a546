import Ominull.Agent.Grant
import Ominull.Agent.TrustJson

/-! How the agent verifies the grant of an offered response job. -/

namespace Ominull.Agent

open Lib

/-! ## The bounded reader of offer payloads (`TermJson_*`) -/

namespace TermJson

def isScalarByte (b : UInt8) : Bool :=
  isDigit b || isLower b || b = 0x2d || b = 0x2b || b = 0x2e || b = 0x45

/-- The rest of an object or array, from one of its items on. Every item takes at least a byte, so the
length of the text is enough fuel. -/
def skipItems (value : Str → Option Str) (object : Bool) : ℕ → Str → Option Str
  | 0, _ => none
  | fuel + 1, s =>
    match (if object then TJ.skipKey s else some s) with
    | none => none
    | some s =>
      match (value s).map TJ.ws with
      | some (b :: r) =>
        if b = 0x2c then skipItems value object fuel r
        else if b = (if object then 0x7d else 0x5d) then some r
        else none
      | _ => none

/-- `TermJson_SkipValue` with so many levels left to the depth limit. -/
def skipValue : ℕ → Str → Option Str
  | 0, _ => none
  | levels + 1, s =>
    match TJ.ws s with
    | [] => none
    | b :: r =>
      if b = 0x22 then TJ.skipString (b :: r)
      else if b = 0x7b ∨ b = 0x5b then
        match TJ.ws r with
        | [] => none
        | c :: r =>
          if c = (if b = 0x7b then 0x7d else 0x5d) then some r
          else skipItems (skipValue levels) (b = 0x7b) (c :: r).length (c :: r)
      else if (b :: r).takeWhile isScalarByte = [] then none
      else some ((b :: r).dropWhile isScalarByte)

/-- A member's value: what stands between a string's quotes, or the text of anything else. -/
inductive Value where
  | string (raw : Str)
  | scalar (raw : Str)
  | nested (raw : Str)

/-- `TermJson_Next`: none where the text is malformed, and no member at the closing brace. -/
def next (first : Bool) (s : Str) : Option (Option (Str × Value × Str)) :=
  match TJ.ws s with
  | [] => none
  | 0x7d :: r => if TJ.ws r = [] then some none else none
  | b :: r => do
    let s ← if first then some (b :: r) else if b = 0x2c then some (TJ.ws r) else none
    let rest ← TJ.skipString s
    let key := TJ.unquoted (TJ.spanTo s rest)
    match TJ.ws rest with
    | 0x3a :: v =>
      match TJ.ws v with
      | [] => none
      | 0x22 :: v =>
        let rest ← TJ.skipStringBody v
        some (some (key, .string (TJ.spanTo v rest).dropLast, rest))
      | c :: v => do
        let rest ← skipValue 8 (c :: v)
        let raw := TJ.spanTo (c :: v) rest
        let rest := TJ.ws rest
        if rest.head?.all fun b => b = 0x2c || b = 0x7d then
          some (some (key, if c = 0x7b ∨ c = 0x5b then .nested raw else .scalar raw, rest))
        else none
    | _ => none

/-- `strtol` in base 16, where it takes the whole text. -/
def strtolHex (s : Str) : Option Int :=
  let (negative, s) := scanSign (skipSpaces s)
  let digits := match s with
    | 0x30 :: x :: a :: r => if (x = 0x78 ∨ x = 0x58) ∧ isHexDigit a then a :: r else s
    | s => s
  if digits = [] then none
  else
    (digits.mapM hexValue).map fun ds =>
      let n : Int := ds.foldl (fun n d => 16 * n + d) 0
      if negative then -n else n

def simpleEscape (c : UInt8) : Option UInt8 :=
  if c = 0x22 ∨ c = 0x5c ∨ c = 0x2f then some c
  else if c = 0x62 then some 0x08
  else if c = 0x66 then some 0x0c
  else if c = 0x6e then some 0x0a
  else if c = 0x72 then some 0x0d
  else if c = 0x74 then some 0x09
  else none

/-- The bytes a raw string stands for; of the code points only those of ASCII. -/
def unescape : Str → Option Str
  | [] => some []
  | 0x5c :: 0x75 :: a :: b :: c :: d :: s =>
    match strtolHex [a, b, c, d] with
    | some v => if 0 < v ∧ v ≤ 0x7f then (unescape s).map (UInt8.ofNat v.toNat :: ·) else none
    | none => none
  | [0x5c] => none
  | 0x5c :: e :: s =>
    match simpleEscape e with
    | some c => (unescape s).map (c :: ·)
    | none => none
  | c :: s => (unescape s).map (c :: ·)

/-- `TermJson_CopyString` into a buffer of `cap` bytes. -/
def copyString (raw : Str) (cap : ℕ) : Option Str :=
  (unescape raw).filter fun s => s.length < cap

end TermJson

/-! ## The parts of an offer that a session's grant is over -/

/-- What `ScreenCanonicalFromOffer` has read so far. -/
structure ScreenOffer where
  mode : Option Str := none
  unattended : Bool := false
  askFirst : Bool := false

def ScreenOffer.member (o : ScreenOffer) (key : Str) (v : TermJson.Value) : Option ScreenOffer :=
  if key = str "mode" then
    match v with
    | .string raw => (TermJson.copyString raw 16).map fun mode => { o with mode := some mode }
    | _ => none
  else if key = str "unattended" then
    match v with
    | .scalar raw => if raw = str "true" then some { o with unattended := true } else none
    | _ => none
  else if key = str "ask_first" then
    match v with
    | .scalar raw => if raw = str "true" then some { o with askFirst := true } else none
    | _ => none
  else some o

def screenMembers : ℕ → Bool → ScreenOffer → Str → Option ScreenOffer
  | 0, _, _, _ => none
  | fuel + 1, first, o, s =>
    match TermJson.next first s with
    | none => none
    | some none => some o
    | some (some (key, v, rest)) => (o.member key v).bind fun o => screenMembers fuel false o rest

/-- `ScreenCanonicalFromOffer`: the bytes the hub digested for a screen session, rebuilt from its
offer. -/
def screenCanonicalFromOffer (payload : Str) : Option Str :=
  match TJ.ws payload with
  | 0x7b :: s =>
    match screenMembers (s.length + 1) true {} s with
    | none => none
    | some o =>
      match o.mode with
      | none => none
      | some mode =>
        if mode = str "control" ∨ mode = str "view" then
          some (str "\x7b\"mode\":\"" ++ mode ++ str "\"" ++
            (if o.unattended then str ",\"unattended\":true" else []) ++
            (if o.askFirst then str ",\"ask_first\":true" else []) ++ str "\x7d")
        else none
  | _ => none

/-- `strstr`: the text from the first occurrence on. -/
def strstr (s needle : Str) : Option Str := s.tails.find? fun t => needle.isPrefixOf t

/-- The payload `{"program":"…"}` of a terminal session, rebuilt from its offer. -/
def programPayload (payload : Str) : Option Str :=
  match strstr payload (str "\"program\"") with
  | none => none
  | some s =>
    match s.dropWhile (· ≠ 0x3a) with
    | [] => none
    | _ :: val =>
      let val := val.dropWhile fun b => b = 0x20 || b = 0x09 || b = 0x22
      let prog := (val.takeWhile fun b => b ≠ 0x22 && b ≠ 0x2c && b ≠ 0x7d).take 127
      some (str "\x7b\"program\":\"" ++ prog ++ str "\"\x7d")

/-- The digest a grant of this kind must carry for the payload: of the payload, or, if that is not the
grant's, of the part of it that a session's grant is over. -/
def ResponseGrant.computedHex (C : Crypto) (g : ResponseGrant) (payload : Str) : Str :=
  let whole := sha256Hex C payload
  if equalsIgnoreCase g.actionDigest whole then whole
  else if g.actionKind = str "terminal_session" then
    ((programPayload payload).map (sha256Hex C)).getD whole
  else if g.actionKind = str "screen_session" then
    ((screenCanonicalFromOffer payload).map (sha256Hex C)).getD whole
  else whole

/-- `VerifyResponseGrantKey` at the clock reading `now`. -/
def verifyResponseGrantKey (C : Crypto) (g : ResponseGrant) (payload endpointID key : Str) (now : Int) :
    Bool :=
  if g.version ≠ 2 ∧ g.version ≠ 3 then false
  else if g.version = 3 ∧ g.jobID = [] then false
  else if g.endpointID ≠ endpointID then false
  else if now < wrap64 (g.issuedAt - 60) then false
  else if wrap64 (g.expiresAt + 60) < now then false
  else if !equalsIgnoreCase g.actionDigest (g.computedHex C payload) then false
  else
    match encodeGrantCanonical g with
    | none => false
    | some canonical =>
      match hexToBytes g.signature 64 with
      | none => false
      | some sig => C.verify key canonical sig

end Ominull.Agent
