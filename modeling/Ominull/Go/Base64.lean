import Ominull.Lib.Text

/-! `encoding/base64` and `encoding/base32`: the decoders. -/

namespace Ominull.Go

/-- The letters, the digits and the two further characters of a base64 alphabet. -/
def base64Value (c62 c63 : UInt8) (c : UInt8) : Option ℕ :=
  if 0x41 ≤ c ∧ c ≤ 0x5a then some (c.toNat - 0x41)
  else if 0x61 ≤ c ∧ c ≤ 0x7a then some (c.toNat - 0x61 + 26)
  else if 0x30 ≤ c ∧ c ≤ 0x39 then some (c.toNat - 0x30 + 52)
  else if c = c62 then some 62
  else if c = c63 then some 63
  else none

/-- The bytes of a number of `8 * n` bits. -/
def quantumBytes (n v : ℕ) : Str := (List.range n).map fun i => UInt8.ofNat (v / 256 ^ (n - 1 - i))

/-- The decoder's loop behind the line ends. Two or three characters at the end are a short quantum, which
has to be padded where the encoding pads; its spare bits are not looked at. -/
def base64Quanta (value : UInt8 → Option ℕ) (padded : Bool) : Str → Option Str
  | [] => some []
  | [_] => none
  | [a, b] => do
    let x ← value a
    let y ← value b
    if padded then none else some (quantumBytes 1 ((x * 64 + y) / 16))
  | [a, b, c] => do
    let x ← value a
    let y ← value b
    let z ← value c
    if padded then none else some (quantumBytes 2 ((x * 4096 + y * 64 + z) / 4))
  | a :: b :: c :: d :: s => do
    let x ← value a
    let y ← value b
    if padded ∧ c = 0x3d ∧ d = 0x3d ∧ s = [] then some (quantumBytes 1 ((x * 64 + y) / 16))
    else
      let z ← value c
      if padded ∧ d = 0x3d ∧ s = [] then some (quantumBytes 2 ((x * 4096 + y * 64 + z) / 4))
      else
        let w ← value d
        let rest ← base64Quanta value padded s
        some (quantumBytes 3 (x * 262144 + y * 4096 + z * 64 + w) ++ rest)

/-- Line ends are skipped wherever they stand. -/
def withoutNewlines (s : Str) : Str := s.filter fun b => b ≠ 0x0a ∧ b ≠ 0x0d

def rawURLDecode (s : Str) : Option Str := base64Quanta (base64Value 0x2d 0x5f) false (withoutNewlines s)

def stdDecode (s : Str) : Option Str := base64Quanta (base64Value 0x2b 0x2f) true (withoutNewlines s)

example : rawURLDecode (str "aGk_-Q") = some (str "hi?" ++ [0xf9]) := by decide
example : stdDecode (str "aGk/\n+Q==") = some (str "hi?" ++ [0xf9]) := by decide
example : stdDecode (str "aGk/+Q") = none := by decide

/-! ## Base32 -/

def base32Value (c : UInt8) : Option ℕ :=
  if 0x41 ≤ c ∧ c ≤ 0x5a then some (c.toNat - 0x41)
  else if 0x32 ≤ c ∧ c ≤ 0x37 then some (c.toNat - 0x32 + 26)
  else none

/-- The whole bytes of a quantum of up to eight characters. One, three or six characters give none, also
where two or more bytes would be there. -/
def base32Bytes (vs : List ℕ) : Str :=
  let v := (vs ++ List.replicate (8 - vs.length) 0).foldl (fun n x => n * 32 + x) 0
  let n := if vs.length = 8 then 5 else if vs.length = 7 then 4 else if vs.length = 5 then 3
    else if vs.length = 4 then 2 else if vs.length = 2 then 1 else 0
  (quantumBytes 5 v).take n

/-- The decoder's loop, with the characters of the quantum it is in. What stands behind the padding of the
last quantum is not read. -/
def base32Quanta (pad : Option UInt8) : List ℕ → Str → Option Str
  | vs, [] => if vs = [] then some [] else if pad.isSome then none else some (base32Bytes vs)
  | vs, b :: s =>
    if pad = some b ∧ 2 ≤ vs.length ∧ s.length < 8 then
      if s.length + vs.length < 7 then none
      else if (s.take (7 - vs.length)).any (· ≠ b) then none
      else if vs.length = 3 ∨ vs.length = 6 then none
      else some (base32Bytes vs)
    else
      match base32Value b with
      | none => none
      | some v =>
        if vs.length = 7 then (base32Quanta pad [] s).map (base32Bytes (vs ++ [v]) ++ ·)
        else base32Quanta pad (vs ++ [v]) s

/-- `DecodeString` of `base32.StdEncoding`, padded or not. -/
def base32Decode (pad : Option UInt8) (s : Str) : Option Str := base32Quanta pad [] (withoutNewlines s)

example : base32Decode none (str "NBUT74Q") = some (str "hi?" ++ [0xf2]) := by decide
example : base32Decode (some 0x3d) (str "NBUQ====") = some (str "hi") := by decide
example : base32Decode (some 0x3d) (str "NBUQ") = none := by decide

end Ominull.Go
