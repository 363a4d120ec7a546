import Ominull.Lib.Hex
import Mathlib.Data.List.DropRight

/-! `net/url`: the host of a parsed URL, and the errors on the way to it. -/

namespace Ominull.Go

/-- `strings.Cut` at a byte. -/
def cut (sep : UInt8) (s : Str) : Str × Str := (s.takeWhile (· ≠ sep), (s.dropWhile (· ≠ sep)).tail)

/-- What stands in front of the last `sep`, if there is one, and behind it. -/
def cutLast (sep : UInt8) (s : Str) : Option (Str × Str) :=
  if sep ∈ s then some ((s.rdropWhile (· ≠ sep)).dropLast, s.rtakeWhile (· ≠ sep)) else none

def isLetter (b : UInt8) : Bool := (0x61 ≤ b && b ≤ 0x7a) || (0x41 ≤ b && b ≤ 0x5a)

/-- The parts of a URL whose escapes are read differently. -/
inductive UrlPart where
  | host
  | zone
  | other
  deriving DecidableEq

/-- `shouldEscape` in a host: neither a letter or digit nor one of the marks a host may hold. -/
def escapedInHost (b : UInt8) : Bool := !(isLetter b || isDigit b || b ∈ str "!$&'()*+,;=:[]<>\"-_.~")

/-- `unescape`, for the parts that do not read `+` as a blank. In a host only bytes beyond ASCII and the
percent sign may be escaped. -/
def unescape (part : UrlPart) : Str → Option Str
  | [] => some []
  | 0x25 :: h :: l :: s =>
    match hexValue h, hexValue l with
    | some x, some y =>
      let v := UInt8.ofNat (x * 16 + y)
      if part = .host ∧ x < 8 ∧ [h, l] ≠ str "25" then none
      else if part = .zone ∧ [h, l] ≠ str "25" ∧ v ≠ 0x20 ∧ escapedInHost v then none
      else (unescape part s).map (v :: ·)
    | _, _ => none
  | b :: s =>
    if b = 0x25 then none
    else if part ≠ .other ∧ b < 0x80 ∧ escapedInHost b then none
    else (unescape part s).map (b :: ·)

/-- `getScheme`: the scheme, empty if there is none, and the rest; none for a leading colon. -/
def getScheme (s : Str) : Option (Str × Str) :=
  let scheme := s.takeWhile fun b => isLetter b || isDigit b || b ∈ str "+-."
  match scheme, s.drop scheme.length with
  | [], 0x3a :: _ => none
  | c :: _, 0x3a :: rest => if isLetter c then some (scheme, rest) else some ([], s)
  | _, _ => some ([], s)

def validOptionalPort : Str → Bool
  | [] => true
  | b :: s => b == 0x3a && s.all isDigit

/-- One number of a dotted address: up to three digits, no leading zero, at most 255. -/
def isOctet (s : Str) : Bool :=
  s ≠ [] && s.all isDigit && s.length ≤ 3 && (s.length = 1 || s.head? ≠ some 0x30) && digitsValue s ≤ 255

def isIPv4 (s : Str) : Bool :=
  let fields := s.splitOn 0x2e
  fields.length = 4 && fields.all isOctet

/-- The loop of `parseIPv6` behind a leading ellipsis, with the bytes that are filled and whether there
was an ellipsis. `fuel` bounds the groups. -/
def ipv6Groups : (fuel : ℕ) → (filled : ℕ) → (ellipsis : Bool) → Str → Bool
  | 0, filled, ellipsis, s => s = [] && (filled < 16) = ellipsis
  | fuel + 1, filled, ellipsis, s =>
    if 16 ≤ filled then s = [] && !ellipsis
    else
      let digits := s.takeWhile fun b => (hexValue b).isSome
      if digits = [] ∨ 4 < digits.length then false
      else
        match s.drop digits.length with
        | [] => (filled + 2 < 16) = ellipsis
        | 0x2e :: _ => (ellipsis || filled = 12) && filled ≤ 12 && isIPv4 s && (filled + 4 < 16) = ellipsis
        | [0x3a] => false
        | 0x3a :: 0x3a :: rest =>
          if ellipsis then false
          else if rest = [] then filled + 2 < 16
          else ipv6Groups fuel (filled + 2) true rest
        | 0x3a :: rest => ipv6Groups fuel (filled + 2) ellipsis rest
        | _ => false

/-- `netip.ParseAddr` accepts the text as an address that is not IPv4. -/
def isIPv6 (s : Str) : Bool :=
  match s.find? (fun b => b = 0x2e || b = 0x3a || b = 0x25) with
  | some 0x3a =>
    let addr := s.takeWhile (· ≠ 0x25)
    if (s.dropWhile (· ≠ 0x25)) = [0x25] then false
    else
      match addr with
      | [0x3a, 0x3a] => true
      | 0x3a :: 0x3a :: rest => ipv6Groups 8 0 true rest
      | _ => ipv6Groups 8 0 false addr
  | _ => false

/-- The text in the brackets of a host, with its zone. -/
def unescapeBracketed (s : Str) : Option Str :=
  match (List.range s.length).find? fun i => (str "%25").isPrefixOf (s.drop i) with
  | some i => do
    let addr ← unescape .host (s.take i)
    let zone ← unescape .zone (s.drop i)
    some (addr ++ zone)
  | none => unescape .host s

/-- `parseHost`. A host in brackets is an IPv6 address; another holds at most the colon of its port. -/
def parseHost (s : Str) : Option Str :=
  if 0x5b ∈ s then
    match s with
    | 0x5b :: rest =>
      if 0x5b ∈ rest then none
      else do
        let (inner, port) ← cutLast 0x5d rest
        if !validOptionalPort port then none
        else
          let addr ← unescapeBracketed inner
          if isIPv6 addr then some (0x5b :: addr ++ 0x5d :: port) else none
    | _ => none
  else if !validOptionalPort (s.dropWhile (· ≠ 0x3a)) then none
  else unescape .host s

def validUserinfo (s : Str) : Bool := s.all fun b => isLetter b || isDigit b || b ∈ str "-._:~!$&'()*+,;=%@"

/-- `parseAuthority`: the host, if user and host are well formed. -/
def parseAuthority (s : Str) : Option Str :=
  match cutLast 0x40 s with
  | none => parseHost s
  | some (user, host) => do
    let host ← parseHost host
    if !validUserinfo user then none
    else
      let _ ← unescape .other user
      some host

/-- `url.Parse`: the `Host` of the URL, empty where it has none. -/
def parseURLHost (raw : Str) : Option Str :=
  let (s, fragment) := cut 0x23 raw
  if s.any (fun b => b < 0x20 || b = 0x7f) then none
  else if s = str "*" then (unescape .other fragment).map fun _ => []
  else do
    let (scheme, rest) ← getScheme s
    let rest := (cut 0x3f rest).1
    let host ←
      if rest.head? ≠ some 0x2f ∧ scheme ≠ [] then some []
      else if rest.head? ≠ some 0x2f ∧ 0x3a ∈ (cut 0x2f rest).1 then none
      else if (scheme ≠ [] ∨ !(str "///").isPrefixOf rest) ∧ (str "//").isPrefixOf rest then do
        let authority := (rest.drop 2).takeWhile (· ≠ 0x2f)
        let host ← parseAuthority authority
        let _ ← unescape .other ((rest.drop 2).dropWhile (· ≠ 0x2f))
        some host
      else (unescape .other rest).map fun _ => []
    let _ ← unescape .other fragment
    some host

/-- The method `Hostname`: the host without its port and brackets. -/
def hostname (host : Str) : Str :=
  let host :=
    match cutLast 0x3a host with
    | some (front, port) => if port.all isDigit then front else host
    | none => host
  if host.head? = some 0x5b ∧ host.getLast? = some 0x5d then host.tail.dropLast else host

/-- `url.Parse(s)` and the `Hostname` of the result. -/
def urlHostname (s : Str) : Option Str := (parseURLHost s).map hostname

example : urlHostname (str "https://localhost:9999") = some (str "localhost") := by decide +kernel
example : urlHostname (str "http://localhost@evil.example/x") = some (str "evil.example") := by decide +kernel
example : urlHostname (str "http://[fe80::1%25en0]:80") = some (str "fe80::1%en0") := by decide +kernel
example : urlHostname (str "http://[::1") = none := by decide +kernel

end Ominull.Go
