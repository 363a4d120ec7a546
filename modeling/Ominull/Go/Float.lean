import Mathlib.Data.Rat.Defs
import Ominull.Go.Json

/-!
`strconv.ParseFloat` and the rounding of `float64`. A finite float is the rational number it stands for.
-/

namespace Ominull.Go

/-- The power of a base, for an exponent of either sign. -/
def scale (base : ℕ) (e : ℤ) : ℚ :=
  match e with
  | .ofNat n => Rat.ofInt (base ^ n : ℕ)
  | .negSucc n => 1 / Rat.ofInt (base ^ (n + 1) : ℕ)

/-- The exponent of a literal, from its letter on. -/
def literalExponent : Str → ℤ
  | _ :: 0x2d :: ds => -Int.ofNat (digitsValue ds)
  | _ :: 0x2b :: ds => Int.ofNat (digitsValue ds)
  | _ :: ds => Int.ofNat (digitsValue ds)
  | [] => 0

/-- The size of the number that a JSON literal stands for. -/
def literalSize (lit : Str) : ℚ :=
  let (int, s) := takeDigits lit
  let (frac, s) := match s with
    | 0x2e :: t => takeDigits t
    | _ => ([], s)
  Rat.ofInt (digitsValue (int ++ frac)) * scale 10 (literalExponent s - frac.length)

/-- The number that a JSON literal stands for. -/
def literalValue : Str → ℚ
  | 0x2d :: t => -literalSize t
  | lit => literalSize lit

/-- To the nearest integer, ties to the even one. -/
def roundEven (q : ℚ) : ℤ :=
  let r := q - Rat.ofInt q.floor
  if r < 1 / 2 then q.floor
  else if 1 / 2 < r then q.floor + 1
  else if q.floor % 2 = 0 then q.floor
  else q.floor + 1

def highestBit (q : ℚ) : ℤ :=
  let e : ℤ := Int.ofNat q.num.natAbs.log2 - Int.ofNat q.den.log2
  if scale 2 e * Rat.ofInt q.den ≤ Rat.ofInt q.num.natAbs then e else e - 1

def lastBit (q : ℚ) : ℤ := if highestBit q - 52 < -1074 then -1074 else highestBit q - 52

/-- The nearest float, or `none` where it would be infinite. -/
def float64 (q : ℚ) : Option ℚ :=
  let v := Rat.ofInt (roundEven (q / scale 2 (lastBit q))) * scale 2 (lastBit q)
  if -scale 2 1024 < v ∧ v < scale 2 1024 then some v else none

/-- `strconv.ParseFloat` on a JSON number's literal. -/
def parseFloat (lit : Str) : Option ℚ := float64 (literalValue lit)

/-- `math.Round`: ties away from zero. -/
def mathRound (q : ℚ) : ℤ := if 0 ≤ q then (q + 1 / 2).floor else -(-q + 1 / 2).floor

theorem parseFloat_decimal : ∀ i : Fin 100,
    parseFloat (decimal i) = some (Rat.ofInt i) ∧ mathRound (Rat.ofInt i) = i := by
  decide +kernel

end Ominull.Go
