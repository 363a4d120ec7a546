import Ominull.Go.Url
import Ominull.Lib.Framing
import Ominull.Lib.Scanf

/-!
Addresses and networks of Go's `net` and `netip`. An address is its bytes: four, or sixteen with an
IPv4 address behind `v4InV6Prefix`.
-/

namespace Ominull.Go

open Lib

def parseIPv4 (s : Str) : Option Str :=
  if isIPv4 s then some ((s.splitOn 0x2e).map fun field => UInt8.ofNat (digitsValue field)) else none

def hexNumber (s : Str) : ℕ := s.foldl (fun n b => 16 * n + (hexValue b).getD 0) 0

/-- The loop of `parseIPv6` behind a leading ellipsis: `ip` holds the bytes read, `ellipsis` where the zeros
go, and `left` groups still fit. -/
def ipv6Loop : (left : ℕ) → (ip : Str) → (ellipsis : Option ℕ) → Str → Option (Str × Option ℕ)
  | 0, ip, ellipsis, s => if s = [] then some (ip, ellipsis) else none
  | left + 1, ip, ellipsis, s =>
    let digits := s.takeWhile isHexDigit
    let ip' := ip ++ bigEndian 2 (hexNumber digits)
    if digits = [] ∨ 4 < digits.length then none
    else
      match s.drop digits.length with
      | [] => some (ip', ellipsis)
      | 0x2e :: _ =>
        -- An IPv4 address at the end, in place of the last two groups.
        if (ellipsis = none ∧ ip.length ≠ 12) ∨ 16 < ip.length + 4 then none
        else (parseIPv4 s).map fun v4 => (ip ++ v4, ellipsis)
      | [0x3a] => none
      | 0x3a :: 0x3a :: rest =>
        if ellipsis ≠ none then none
        else if rest = [] then some (ip', some ip'.length)
        else ipv6Loop left ip' (some ip'.length) rest
      | 0x3a :: rest => ipv6Loop left ip' ellipsis rest
      | _ => none

/-- Zeros fill the address up at the ellipsis; without one it has to be full. -/
def expandEllipsis : Str × Option ℕ → Option Str
  | (ip, none) => if ip.length = 16 then some ip else none
  | (ip, some e) =>
    if ip.length < 16 then some (ip.take e ++ List.replicate (16 - ip.length) 0 ++ ip.drop e) else none

/-- `parseIPv6`, of a text without a zone. -/
def parseIPv6 : Str → Option Str
  | [0x3a, 0x3a] => some (List.replicate 16 0)
  | 0x3a :: 0x3a :: rest => (ipv6Loop 8 [] (some 0) rest).bind expandEllipsis
  | s => (ipv6Loop 8 [] none s).bind expandEllipsis

/-- `netip.ParseAddr`, but for an address with a zone, which both callers in `net` refuse. -/
def parseAddr (s : Str) : Option Str :=
  if 0x25 ∈ s then none
  else
    match s.find? fun b => b = 0x2e || b = 0x3a with
    | some 0x2e => parseIPv4 s
    | some _ => parseIPv6 s
    | none => none

def v4InV6Prefix : Str := List.replicate 10 0 ++ [0xff, 0xff]

def as16 (addr : Str) : Str := if addr.length = 4 then v4InV6Prefix ++ addr else addr

def parseIP (s : Str) : Option Str := (parseAddr s).map as16

def to4 (ip : Str) : Option Str :=
  if ip.length = 4 then some ip
  else if ip.length = 16 ∧ ip.take 12 = v4InV6Prefix then some (ip.drop 12)
  else none

/-- `net.CIDRMask`, by bytes. -/
def cidrMask : (ones : ℕ) → (bytes : ℕ) → Str
  | _, 0 => []
  | n, l + 1 => if 8 ≤ n then 0xff :: cidrMask (n - 8) l else ~~~(0xff >>> UInt8.ofNat n) :: cidrMask 0 l

def masked (ip mask : Str) : Str := List.zipWith (· &&& ·) ip mask

def maskIP (ip mask : Str) : Str :=
  let mask := if mask.length = 16 ∧ ip.length = 4 ∧ (mask.take 12).all (· = 0xff) then mask.drop 12 else mask
  let ip := if mask.length = 4 ∧ ip.length = 16 ∧ ip.take 12 = v4InV6Prefix then ip.drop 12 else ip
  if ip.length ≠ mask.length then [] else masked ip mask

structure IPNet where
  ip : Str
  mask : Str
  deriving DecidableEq

def dtoi (s : Str) : Option ℕ :=
  if s = [] ∨ !s.all isDigit ∨ 0xffffff ≤ digitsValue s then none else some (digitsValue s)

/-- The network of `net.ParseCIDR`. -/
def parseCIDR (s : Str) : Option IPNet :=
  if 0x2f ∉ s then none
  else do
    let (addr, mask) := cut 0x2f s
    let addr ← parseAddr addr
    let n ← dtoi mask
    if 8 * addr.length < n then none
    else
      let m := cidrMask n addr.length
      some ⟨maskIP (as16 addr) m, m⟩

namespace IPNet

def networkNumberAndMask (n : IPNet) : Option (Str × Str) :=
  let ip := (to4 n.ip).getD n.ip
  if ip.length ≠ 4 ∧ ip.length ≠ 16 then none
  else if n.mask.length = 4 then if ip.length = 4 then some (ip, n.mask) else none
  else if n.mask.length = 16 then some (ip, if ip.length = 4 then n.mask.drop 12 else n.mask)
  else none

def contains (n : IPNet) (ip : Str) : Bool :=
  let ip := (to4 ip).getD ip
  match n.networkNumberAndMask with
  | none => ip = []
  | some (nn, m) => ip.length = nn.length && masked nn m = masked ip m

end IPNet

def groups : Str → List ℕ
  | a :: b :: ip => (256 * a.toNat + b.toNat) :: groups ip
  | _ => []

/-- `appendHex`: no leading zeros. -/
def hexGroup (x : ℕ) : Str :=
  (if 0x1000 ≤ x then [hexDigit (x / 0x1000)] else []) ++
    (if 0x100 ≤ x then [hexDigit (x / 0x100 % 16)] else []) ++
    (if 0x10 ≤ x then [hexDigit (x / 0x10 % 16)] else []) ++ [hexDigit (x % 16)]

def joinGroups (gs : List ℕ) : Str := List.intercalate [0x3a] (gs.map hexGroup)

def zerosFrom (gs : List ℕ) (i : ℕ) : ℕ := ((gs.drop i).takeWhile (· = 0)).length

/-- The first of the longest runs of zero groups, of two at least, as its start and its end. -/
def zeroRun (gs : List ℕ) : ℕ × ℕ :=
  (List.range 8).foldl
    (fun best i =>
      if 2 ≤ zerosFrom gs i ∧ best.2 - best.1 < zerosFrom gs i then (i, i + zerosFrom gs i) else best)
    (255, 255)

/-- `appendTo6`: the groups, with the run of zeros written as a double colon. -/
def string6 (ip : Str) : Str :=
  let gs := groups ip
  let (zeroStart, zeroEnd) := zeroRun gs
  if zeroStart < 8 then joinGroups (gs.take zeroStart) ++ str "::" ++ joinGroups (gs.drop zeroEnd)
  else joinGroups gs

def dotted (ip : Str) : Str := List.intercalate [0x2e] (ip.map fun b => decimal b.toNat)

/-- `IP.String`, of an address of four or sixteen bytes. -/
def ipString (ip : Str) : Str :=
  match to4 ip with
  | some ip4 => dotted ip4
  | none => string6 ip

/-- The ones at the head of a byte, if only zeros follow them. -/
def leadingOnes : (bits : ℕ) → UInt8 → Option ℕ
  | 0, v => if v = 0 then some 0 else none
  | bits + 1, v =>
    if v &&& 0x80 ≠ 0 then (leadingOnes bits (v <<< 1)).map (· + 1)
    else if v = 0 then some 0
    else none

def simpleMaskLength : Str → Option ℕ
  | [] => some 0
  | b :: m =>
    if b = 0xff then (simpleMaskLength m).map (· + 8)
    else if m.all (· = 0) then leadingOnes 8 b
    else none

def IPNet.string (n : IPNet) : Str :=
  match n.networkNumberAndMask with
  | none => str "<nil>"
  | some (nn, m) =>
    match simpleMaskLength m with
    | some l => ipString nn ++ 0x2f :: decimal l
    | none => ipString nn ++ 0x2f :: hexEncode m

end Ominull.Go
