import Ominull.Agent.TrustJson

/-! Addresses, allow-list entries and isolation exceptions, as the agent accepts them. -/

namespace Ominull.Agent

open Lib

def isIPv4Part (s : Str) : Bool :=
  s ≠ [] && s.length ≤ 3 && s.all isDigit && digitsValue s ≤ 255

/-- The scan of an IPv6 address: colons, digits of the current group, and double colons so far. -/
def scanIPv6 : ℕ → ℕ → ℕ → Str → Option (ℕ × ℕ)
  | colons, _, doubles, [] => some (colons, doubles)
  | colons, group, doubles, b :: s =>
    if b = 0x3a then
      if s.head? = some 0x3a then
        if 1 < doubles + 1 ∨ (s.drop 1).head? = some 0x3a then none
        else scanIPv6 (colons + 1) 0 (doubles + 1) s
      else scanIPv6 (colons + 1) 0 doubles s
    else if b = 0x2e ∨ 4 < group + 1 then none
    else scanIPv6 colons (group + 1) doubles s

def isIPLiteral (s : Str) : Bool :=
  if s = [] ∨ 64 ≤ s.length then false
  else if !s.all (fun b => isHexDigit b || b = 0x2e || b = 0x3a) then false
  else if 0x3a ∈ s then
    match scanIPv6 0 0 0 s with
    | some (colons, doubles) => 2 ≤ colons && colons ≤ 7 && (doubles = 1 || colons = 7)
    | none => false
  else
    let parts := s.splitOn 0x2e
    parts.length = 4 && parts.all isIPv4Part

/-- The number a run of hex digits stands for (`strtoul` in base 16). -/
def hexPrefixValue (s : Str) : ℕ :=
  (s.takeWhile isHexDigit).foldl (fun n b => 16 * n + (hexValue b).getD 0) 0

def allowMinV4 : ℕ := 8

def allowMinV6 : ℕ := 32

/-- The first two groups of an IPv6 address decide whether a range of it may be opened. -/
def isOpenableIPv6 (addr : Str) : Bool :=
  let (g0, g1) :=
    if addr.head? = some 0x3a then (0, 0)
    else
      let tail := (addr.dropWhile (· != 0x3a)).drop 1
      (hexPrefixValue addr, if tail.head? = some 0x3a then 0 else hexPrefixValue tail)
  (g0 / 2 ^ 13 % 8 = 1 || g0 / 2 ^ 9 % 128 = 0x7e) && g0 ≠ 0x2002 && !(g0 = 0x2001 && g1 = 0)

/-- `Trust_IsAllowEntry`: an address, or a range of one that is not too wide. -/
def isAllowEntry (s : Str) : Bool :=
  if s = [] ∨ 64 ≤ s.length then false
  else if 0x2f ∉ s then isIPLiteral s
  else
    let addr := s.takeWhile (· != 0x2f)
    let digits := (s.dropWhile (· != 0x2f)).drop 1
    if !isIPLiteral addr then false
    else if !digits.all isDigit || 3 < digits.length then false
    else if digits = [] ∨ (1 < digits.length ∧ digits.head? = some 0x30) then false
    else
      let len := digitsValue digits
      if 0x3a ∉ addr then allowMinV4 ≤ len && len ≤ 32
      else allowMinV6 ≤ len && len ≤ 128 && isOpenableIPv6 addr

structure TrustRule where
  service : Str
  destination : Str
  protocol : Str
  port : Int
  deriving DecidableEq

def TrustRule.valid (r : TrustRule) : Bool :=
  r.service ≠ [] && r.service.all (fun b => isLower b || isDigit b || b = 0x2d || b = 0x5f) &&
    isIPLiteral r.destination && (r.protocol = str "udp" || r.protocol = str "tcp") &&
    1 ≤ r.port && r.port ≤ 65535

def maxRules : ℕ := 64

def parseRule (v : Str) : Option TrustRule := do
  let service ← TJ.memberPlain v (str "service") 16
  let destination ← TJ.memberPlain v (str "destination") 64
  let protocol ← TJ.memberPlain v (str "protocol") 8
  let port ← TJ.memberInt v (str "port")
  let r : TrustRule := ⟨service, destination, protocol, port⟩
  if r.valid then some r else none

/-- `Trust_ParseRules`: the whole list or nothing. -/
def parseRules (v : Str) : Option (List TrustRule) :=
  TJ.eachElement maxRules (fun _ => parseRule) v

end Ominull.Agent
